import Mathlib.Data.List.Induction
import SharedCells.Proofs.Cas.Proposals
import SharedCells.Proofs.Cas.Shortcut

/-!
# A call among rivals

A call that puts a value in while a cell holds an expected one is alone with rivals, which store
what they like before, between and after its steps. All that it ever does to the cell is one
exchange of the expected value for the last candidate that its function made.

* `LeftToRivals` says that nobody but rivals changes the cell, `PutsIn` that one step of the call
  does, and `Declines` how a call ends that leaves the cell to rivals.
* `Goes` is how far a call has come that has not put anything in; `Spares.own` and `Spares.other`
  say what one turn makes of it, `run_spares_or_exchanges` what a schedule does.
* `Stands.proposals_le`: if rivals store only while the function runs, it runs once at most.
* `run_guarded` is the result, for every schedule.
-/

namespace SharedCells.Cas.Race

variable {σ V : Type}

/-! ## The course of a schedule -/

/-- The first caller is about to read the cell. -/
def reading (r : Race σ V) : Bool :=
  match r.callers with
  | ⟨.ready, _, _, _ :: _, _⟩ :: _ => true
  | _ => false

variable [DecidableEq V]

/-- Throughout a schedule the cell holds what rivals make of it. -/
def LeftToRivals (r : Race σ V) (turns : List (Turn V)) : Prop :=
  ∀ before, before <+: turns → (r.run before).cell = held r.cell (stores before)

/-- The cell held a value during the call: right after one of its steps. -/
def HeldInCall (r : Race σ V) (turns : List (Turn V)) (v : V) : Prop :=
  ∃ before, before ++ [.caller 0] <+: turns ∧ (r.run before).Unanswered ∧
    (r.run (before ++ [.caller 0])).cell = v

/-- The last step of the call was to read a value from the cell. -/
def HasRead (r : Race σ V) (turns : List (Turn V)) (v : V) : Prop :=
  ∃ before after, turns = before ++ .caller 0 :: after ∧ ownSteps after = 0 ∧
    (r.run before).Unanswered ∧ (r.run before).reading ∧ (r.run before).cell = v

/-- One step of the call exchanges the expected value for the last candidate of its function, and
gives that back; before and after it the cell is left to rivals. -/
structure PutsIn (r : Race σ V) (expected w : V) (before after : List (Turn V)) : Prop where
  left : r.LeftToRivals before
  unanswered : (r.run before).Unanswered
  expects : (r.run before).cell = expected
  other : w ≠ expected
  candidate : (r.proposals 0 (before ++ .caller 0 :: after)).getLast? = some ⟨expected, .ok w⟩
  holds : ∀ turns, turns <+: after →
    (r.run (before ++ .caller 0 :: turns)).cell = held w (stores turns)
  answers : ∀ turns, turns <+: after → (r.run (before ++ .caller 0 :: turns)).Answered (.ok w)

/-- How a call ends that puts nothing in. -/
inductive Declines (r : Race σ V) (expected : V) (turns : List (Turn V)) : Except Panic V → Prop
  /-- The cell has moved away from the expected value. -/
  | moved {v : V} : v ≠ expected → r.HeldInCall turns v → Declines r expected turns (.ok v)
  /-- The candidate is the expected value. -/
  | same : (r.proposals 0 turns).getLast? = some ⟨expected, .ok expected⟩ →
    r.HeldInCall turns expected → Declines r expected turns (.ok expected)
  | panics {p : Panic} : (r.proposals 0 turns).getLast? = some ⟨expected, .error p⟩ →
    Declines r expected turns (.error p)

section Course

variable {r : Race σ V} {turns : List (Turn V)} {v : V}

theorem HeldInCall.mono (h : r.HeldInCall turns v) (turn : Turn V) :
    r.HeldInCall (turns ++ [turn]) v := by
  obtain ⟨before, hbefore, hrest⟩ := h
  exact ⟨before, hbefore.trans (List.prefix_append _ _), hrest⟩

theorem HasRead.other (h : r.HasRead turns v) {turn : Turn V} (hturn : turn ≠ .caller 0) :
    r.HasRead (turns ++ [turn]) v := by
  obtain ⟨before, after, rfl, hown, hrest⟩ := h
  refine ⟨before, after ++ [turn], by simp, ?_, hrest⟩
  rw [ownSteps, List.countP_append, ← ownSteps, hown]
  cases turn with
  | rival v => rfl
  | caller i =>
    cases i with
    | zero => exact absurd rfl hturn
    | succ i => rfl

theorem LeftToRivals.concat (h : r.LeftToRivals turns) {turn : Turn V}
    (hcell : (r.run (turns ++ [turn])).cell = held r.cell (stores (turns ++ [turn]))) :
    r.LeftToRivals (turns ++ [turn]) := by
  intro before hbefore
  rcases List.prefix_concat_iff.1 hbefore with rfl | hbefore
  · exact hcell
  · exact h before hbefore

theorem LeftToRivals.rival (h : r.LeftToRivals turns) (v : V) :
    r.LeftToRivals (turns ++ [.rival v]) := by
  refine h.concat ?_
  rw [run_append]
  simp [stores, held, run, step]

/-- A step of a caller that leaves the cell alone leaves it to rivals. -/
theorem LeftToRivals.caller (h : r.LeftToRivals turns) {i : Nat}
    (hcell : ((r.run turns).step (.caller i)).cell = (r.run turns).cell) :
    r.LeftToRivals (turns ++ [.caller i]) := by
  refine h.concat ?_
  have hstores : stores (turns ++ [.caller i]) = stores turns := by simp [stores]
  rw [hstores, ← h turns List.prefix_rfl, run_append]
  exact hcell

/-- What was read was in the cell. -/
theorem HasRead.heldInCall (h : r.HasRead turns v) (hleft : r.LeftToRivals turns) :
    r.HeldInCall turns v := by
  obtain ⟨before, after, rfl, -, hunanswered, -, hcell⟩ := h
  have hread : before ++ [.caller 0] <+: before ++ .caller 0 :: after := ⟨after, by simp⟩
  refine ⟨before, hread, hunanswered, ?_⟩
  have hstores : stores (before ++ [.caller 0]) = stores before := by simp [stores]
  rw [hleft _ hread, hstores, ← hleft before ⟨_, rfl⟩, hcell]

end Course

/-! ## How far a call has come -/

/-- How far a call has come that has not put anything in. -/
inductive Goes (call : Call σ V) (expected : V) (r : Race σ V) (turns : List (Turn V)) :
    Race σ V → Prop
  | reading {cell : V} {s : σ} {lost : UInt32} {pauses : List Pause} :
    Goes call expected r turns (alone call cell s .ready lost pauses)
  | computing {cell : V} {s : σ} {lost : UInt32} {pauses : List Pause} :
    r.HasRead turns expected →
      Goes call expected r turns (alone call cell s (.proposing expected) lost pauses)
  | exchanging {cell w : V} {s : σ} {lost : UInt32} {pauses : List Pause} : w ≠ expected →
    (r.proposals 0 turns).getLast? = some ⟨expected, .ok w⟩ →
      Goes call expected r turns (alone call cell s (.exchanging expected w) lost pauses)
  | pausing {cell : V} {s : σ} {lost : UInt32} {pauses : List Pause} :
    Goes call expected r turns (alone call cell s .pausing lost pauses)
  | ended {cell : V} {s : σ} {o : Except Panic V} : Declines r expected turns o →
    Goes call expected r turns (concluded cell s [] o)

/-- A call that has not put anything in by the end of a schedule. -/
structure Spares (call : Call σ V) (expected : V) (r : Race σ V) (turns : List (Turn V)) :
    Prop where
  left : r.LeftToRivals turns
  goes : Goes call expected r turns (r.run turns)

/-- The next step of a call is its exchange, which ends it. -/
structure Exchanges (expected w : V) (r : Race σ V) (before : List (Turn V)) : Prop where
  left : r.LeftToRivals before
  unanswered : (r.run before).Unanswered
  expects : (r.run before).cell = expected
  other : w ≠ expected
  candidate : (r.proposals 0 before).getLast? = some ⟨expected, .ok w⟩
  silent : (r.run before).proposal? 0 = none
  ends : ∃ s, (r.run before).step (.caller 0) = concluded w s [⟨0, expected, w⟩] (.ok w)

section Goes

variable {call : Call σ V} {expected : V} {r r' : Race σ V} {turns : List (Turn V)}
  {turn : Turn V}

theorem Declines.other {o : Except Panic V} (h : Declines r expected turns o)
    (hproposals : r.proposals 0 (turns ++ [turn]) = r.proposals 0 turns) :
    Declines r expected (turns ++ [turn]) o := by
  cases h with
  | moved hv hheld => exact .moved hv (hheld.mono turn)
  | same hlast hheld => exact .same (hproposals ▸ hlast) (hheld.mono turn)
  | panics hlast => exact .panics (hproposals ▸ hlast)

/-- The cell plays no part in how far a call has come. -/
theorem Goes.other (h : Goes call expected r turns r')
    (hproposals : r.proposals 0 (turns ++ [turn]) = r.proposals 0 turns)
    (hturn : turn ≠ .caller 0) (cell : V) :
    Goes call expected r (turns ++ [turn]) { r' with cell } := by
  cases h with
  | reading => exact .reading
  | computing hread => exact .computing (hread.other hturn)
  | exchanging hw hlast => exact .exchanging hw (hproposals ▸ hlast)
  | pausing => exact .pausing
  | ended hends => exact .ended (hends.other hproposals)

/-- Steps of other callers change nothing, for there are none. -/
theorem Goes.step_caller (h : Goes call expected r turns r') {i : Nat} (hi : i ≠ 0) :
    r'.step (.caller i) = r' := by
  obtain ⟨c, hc⟩ : ∃ c, r'.callers = [c] := by cases h <;> exact ⟨_, rfl⟩
  have hnone : r'.callers[i]? = none := by
    rw [hc]
    exact List.getElem?_eq_none (by simp; omega)
  simp [step, hnone]

/-- A turn that is no step of the call brings it no further. -/
theorem Spares.other (h : Spares call expected r turns) (hturn : turn ≠ .caller 0) :
    Spares call expected r (turns ++ [turn]) := by
  have hproposals : r.proposals 0 (turns ++ [turn]) = r.proposals 0 turns := by
    rw [proposals_concat]
    cases turn with
    | rival v => exact List.append_nil _
    | caller i =>
      have hi : i ≠ 0 := fun hi => hturn (hi ▸ rfl)
      simp [proposalOn, hi]
  have hrun : r.run (turns ++ [turn]) = (r.run turns).step turn := r.run_append turns [turn]
  cases turn with
  | rival v =>
    refine ⟨h.left.rival v, ?_⟩
    rw [hrun]
    exact h.goes.other hproposals hturn v
  | caller i =>
    have hi : i ≠ 0 := fun hi => hturn (hi ▸ rfl)
    have hsame := h.goes.step_caller hi
    refine ⟨h.left.caller (by rw [hsame]), ?_⟩
    rw [hrun, hsame]
    exact h.goes.other hproposals hturn _

/-- A step of the call that leaves the cell alone leads to where it has come then. -/
theorem Spares.next {r'' : Race σ V} (h : Spares call expected r turns) (hat : r.run turns = r')
    (hstep : r'.step (.caller 0) = r'') (hcell : r''.cell = r'.cell)
    (hgoes : Goes call expected r (turns ++ [.caller 0]) r'') :
    Spares call expected r (turns ++ [.caller 0]) := by
  subst hat hstep
  exact ⟨h.left.caller hcell, (r.run_append turns [.caller 0]).symm ▸ hgoes⟩

section Own

variable {cell w : V} {s : σ} {lost : UInt32} {pauses : List Pause}

theorem Spares.reads (hgoal : call.goal = .getOrSetIf expected) (h : Spares call expected r turns)
    (hat : r.run turns = alone call cell s .ready lost pauses) :
    Spares call expected r (turns ++ [.caller 0]) := by
  have hstep : (alone call cell s .ready lost pauses).step (.caller 0) =
      if cell = expected then alone call cell s (.proposing cell) lost pauses
      else concluded cell s [] (.ok cell) :=
    (step_ready hgoal : Loop.shortcut.step _ _ = _)
  have hunanswered : (r.run turns).Unanswered := by
    rw [hat]
    rfl
  by_cases hcell : cell = expected
  · subst hcell
    rw [if_pos rfl] at hstep
    have hreading : (r.run turns).reading = true := by
      rw [hat]
      rfl
    refine h.next hat hstep rfl (.computing ?_)
    exact ⟨turns, [], rfl, rfl, hunanswered, hreading, by rw [hat]; rfl⟩
  · rw [if_neg hcell] at hstep
    refine h.next hat hstep rfl (.ended (.moved hcell ?_))
    refine ⟨turns, List.prefix_rfl, hunanswered, ?_⟩
    rw [run_append, hat]
    exact congrArg Race.cell hstep

theorem Spares.proposes (hgoal : call.goal = .getOrSetIf expected)
    (h : Spares call expected r turns)
    (hat : r.run turns = alone call cell s (.proposing expected) lost pauses)
    (hread : r.HasRead turns expected) : Spares call expected r (turns ++ [.caller 0]) := by
  obtain ⟨made, s', hp⟩ : ∃ made s', call.propose s expected = (made, s') := ⟨_, _, rfl⟩
  have hlast : (r.proposals 0 (turns ++ [.caller 0])).getLast? = some ⟨expected, made⟩ := by
    have hproposal : (r.run turns).proposalOn 0 (.caller 0) =
        some ⟨expected, (call.propose s expected).1⟩ := by
      rw [hat]
      rfl
    rw [proposals_concat, hproposal, hp]
    exact List.getLast?_concat
  cases made with
  | error p =>
    have hstep : (alone call cell s (.proposing expected) lost pauses).step (.caller 0) =
        concluded cell s' [] (.error p) :=
      (step_proposing_error hp : Loop.shortcut.step _ _ = _)
    exact h.next hat hstep rfl (.ended (.panics hlast))
  | ok w =>
    have hstep : (alone call cell s (.proposing expected) lost pauses).step (.caller 0) =
        if Loop.shortcut = .shortcut ∧ w = expected then concluded cell s' [] (.ok expected)
        else alone call cell s' (.exchanging expected w) lost pauses :=
      (step_proposing_ok hgoal hp : Loop.shortcut.step _ _ = _)
    by_cases hw : w = expected
    · subst hw
      rw [if_pos ⟨rfl, rfl⟩] at hstep
      have hheld := (hread.heldInCall h.left).mono (.caller 0)
      exact h.next hat hstep rfl (.ended (.same hlast hheld))
    · rw [if_neg fun hcut => hw hcut.2] at hstep
      exact h.next hat hstep rfl (.exchanging hw hlast)

theorem Spares.attempts (hgoal : call.goal = .getOrSetIf expected)
    (h : Spares call expected r turns)
    (hat : r.run turns = alone call cell s (.exchanging expected w) lost pauses)
    (hw : w ≠ expected) (hlast : (r.proposals 0 turns).getLast? = some ⟨expected, .ok w⟩) :
    Spares call expected r (turns ++ [.caller 0]) ∨ Exchanges expected w r turns := by
  have hstep : (alone call cell s (.exchanging expected w) lost pauses).step (.caller 0) =
      if cell = expected then concluded w s [⟨0, expected, w⟩] (.ok w)
      else alone call cell s (if call.backoff.isSome then .pausing else .ready) lost pauses :=
    (step_exchanging hgoal : Loop.shortcut.step _ _ = _)
  by_cases hcell : cell = expected
  · rw [if_pos hcell, ← hat] at hstep
    refine Or.inr ⟨h.left, ?_, ?_, hw, hlast, ?_, s, hstep⟩ <;> rw [hat]
    · rfl
    · exact hcell
    · rfl
  · rw [if_neg hcell] at hstep
    refine Or.inl (h.next hat hstep rfl ?_)
    cases call.backoff.isSome with
    | false => exact .reading
    | true => exact .pausing

/-- A step of the call brings it further, or is its exchange. -/
theorem Spares.own (hgoal : call.goal = .getOrSetIf expected) (h : Spares call expected r turns) :
    Spares call expected r (turns ++ [.caller 0]) ∨ ∃ w, Exchanges expected w r turns := by
  have hgoes := h.goes
  generalize hat : r.run turns = r' at hgoes
  cases hgoes with
  | reading => exact Or.inl (h.reads hgoal hat)
  | computing hread => exact Or.inl (h.proposes hgoal hat hread)
  | exchanging hw hlast => exact (h.attempts hgoal hat hw hlast).imp_right fun hends => ⟨_, hends⟩
  | @pausing cell s lost pauses =>
    have hstep : (alone call cell s .pausing lost pauses).step (.caller 0) = _ :=
      (step_pausing : Loop.shortcut.step _ _ = _)
    exact Or.inl (h.next hat hstep rfl .reading)
  | @ended cell s o hends =>
    have hstep : (concluded cell s [] o).step (.caller 0) = _ :=
      (step_concluded [] o : Loop.shortcut.step _ _ = _)
    have hsame : r.proposals 0 (turns ++ [.caller 0]) = r.proposals 0 turns := by
      rw [proposals_concat, hat]
      exact List.append_nil _
    exact Or.inl (h.next hat hstep rfl (.ended (hends.other hsame)))

end Own

end Goes

/-! ## Schedules -/

section Run

variable {call : Call σ V} {expected w : V} {r : Race σ V} {before : List (Turn V)}

/-- When the only call has ended, only rivals go on. -/
theorem run_concluded (cell : V) (s : σ) (log : List (Exchange V)) (o : Except Panic V)
    (turns : List (Turn V)) :
    (concluded cell s log o).run turns = concluded (held cell (stores turns)) s log o ∧
      (concluded cell s log o).proposals 0 turns = [] := by
  induction turns generalizing cell with
  | nil => exact ⟨rfl, rfl⟩
  | cons turn turns ih =>
    cases turn with
    | rival v =>
      obtain ⟨hrun, hproposals⟩ := ih v
      refine ⟨?_, hproposals⟩
      have hheld : held cell (stores (.rival v :: turns)) = held v (stores turns) := by
        simp only [held, stores, List.filterMap_cons, List.getLastD_cons]
      rw [hheld]
      exact hrun
    | caller i =>
      have hstep : (concluded cell s log o).step (.caller i) = concluded cell s log o := by
        cases i <;> rfl
      have hnone : (concluded cell s log o).proposalOn 0 (.caller i) = none := by
        cases i <;> rfl
      obtain ⟨hrun, hproposals⟩ := ih cell
      refine ⟨?_, ?_⟩
      · have hnext : (concluded cell s log o).run (.caller i :: turns) =
            ((concluded cell s log o).step (.caller i)).run turns := rfl
        rw [hnext, hstep]
        exact hrun
      · rw [proposals, hnone, hstep, hproposals]
        rfl

/-- After its exchange a call has ended. -/
theorem Exchanges.run (h : Exchanges expected w r before) : ∃ s, ∀ turns,
    r.run (before ++ .caller 0 :: turns) =
      concluded (held w (stores turns)) s [⟨0, expected, w⟩] (.ok w) := by
  obtain ⟨s, hends⟩ := h.ends
  refine ⟨s, fun turns => ?_⟩
  have hnext : r.run (before ++ .caller 0 :: turns) =
      ((r.run before).step (.caller 0)).run turns := run_append ..
  rw [hnext, hends]
  exact (run_concluded ..).1

theorem Exchanges.putsIn (h : Exchanges expected w r before) (after : List (Turn V)) :
    r.PutsIn expected w before after := by
  have hproposals : r.proposals 0 (before ++ .caller 0 :: after) = r.proposals 0 before := by
    obtain ⟨s, hends⟩ := h.ends
    have hown : (r.run before).proposalOn 0 (.caller 0) = none := h.silent
    rw [proposals_append, proposals, hown, hends, (run_concluded ..).2]
    exact List.append_nil _
  obtain ⟨s, hrun⟩ := h.run
  refine ⟨h.left, h.unanswered, h.expects, h.other, hproposals ▸ h.candidate, ?_, ?_⟩
  · intro turns _
    rw [hrun]
    rfl
  · intro turns _
    rw [hrun]
    rfl

theorem spares_start (call : Call σ V) (expected first : V) (state : σ) :
    Spares call expected (start first state [[call]]) [] where
  left before hbefore := by
    rw [List.prefix_nil.1 hbefore]
    rfl
  goes := .reading

/-- In the course of a schedule a call puts nothing in, or one of its steps is its exchange. -/
theorem run_spares_or_exchanges (hgoal : call.goal = .getOrSetIf expected) (first : V) (state : σ)
    (turns : List (Turn V)) :
    Spares call expected (start first state [[call]]) turns ∨
      ∃ w before after, turns = before ++ .caller 0 :: after ∧
        Exchanges expected w (start first state [[call]]) before := by
  induction turns using List.reverseRecOn with
  | nil => exact Or.inl (spares_start call expected first state)
  | append_singleton turns turn ih =>
    rcases ih with hspares | ⟨w, before, after, rfl, hends⟩
    · by_cases hturn : turn = .caller 0
      · subst hturn
        exact (hspares.own hgoal).imp_right fun ⟨w, hends⟩ => ⟨w, turns, [], rfl, hends⟩
      · exact Or.inl (hspares.other hturn)
    · exact Or.inr ⟨w, before, after ++ [turn], by simp, hends⟩

/-- A call that leaves the cell to rivals has not ended, or it declines. -/
theorem Spares.declines {turns : List (Turn V)} {o : Except Panic V}
    (h : Spares call expected r turns) (ho : (r.run turns).Answered o) :
    Declines r expected turns o := by
  have hgoes := h.goes
  generalize r.run turns = r' at hgoes ho
  cases hgoes with
  | ended hends =>
    cases ho
    exact hends
  | _ => cases ho

theorem Spares.hasRead {turns : List (Turn V)} {p : Proposal V}
    (h : Spares call expected r turns) (hp : (r.run turns).proposal? 0 = some p) :
    p.current = expected ∧ r.HasRead turns expected := by
  have hgoes := h.goes
  generalize r.run turns = r' at hgoes hp
  cases hgoes with
  | computing hread =>
    cases hp
    exact ⟨rfl, hread⟩
  | _ => cases hp

end Run

/-! ## Rivals that store only while the function runs -/

section Confined

variable {call : Call σ V} {expected first : V} {state : σ} {stored : List V} {n : Nat}
  {r : Race σ V}

/-- Where the function runs, the call needs at most three more steps. -/
theorem Stands.proposalOn_le (h : Stands .shortcut call expected first state stored n r) :
    (r.proposalOn 0 (.caller 0)).toList.length + (n - 1) / 4 ≤ n / 4 := by
  cases h <;> exact Nat.le_refl _

/-- A call that needs at most three more steps does not run its function again. -/
theorem Stands.proposals_le (hgoal : call.goal = .getOrSetIf expected) (turns : List (Turn V))
    (h : Stands .shortcut call expected first state stored n r)
    (hconfined : Confined step r turns) : (r.proposals 0 turns).length ≤ n / 4 := by
  induction turns generalizing stored n r with
  | nil => exact Nat.zero_le _
  | cons turn turns ih =>
    rw [proposals, List.length_append]
    cases turn with
    | rival v =>
      have hrest := ih (h.rival hconfined.1 v) hconfined.2
      rwa [proposalOn, Option.toList_none, List.length_nil, Nat.zero_add]
    | caller i =>
      by_cases hi : i = 0
      · subst hi
        obtain ⟨m, hm, hown⟩ := h.own hgoal
        have hrest := ih hown hconfined
        have hfirst := h.proposalOn_le
        have hm4 : m / 4 ≤ (n - 1) / 4 := Nat.div_le_div_right hm
        exact Nat.le_trans (Nat.add_le_add_left (Nat.le_trans hrest hm4) _) hfirst
      · have hsame : r.step (.caller i) = r := h.other hi
        rw [Confined, hsame] at hconfined
        rw [proposalOn, if_neg hi, hsame, Option.toList_none, List.length_nil, Nat.zero_add]
        exact ih h hconfined

end Confined

/-! ## The call -/

/-- What a call for an expected value does in the course of a schedule, whatever rivals store. -/
structure Guarded (r : Race σ V) (expected : V) (turns : List (Turn V)) : Prop where
  /-- It changes the cell at most once, and only from the expected value to its last candidate,
  which it gives back. -/
  changes : r.LeftToRivals turns ∨
    ∃ w before after, turns = before ++ .caller 0 :: after ∧ r.PutsIn expected w before after
  /-- If it ends without that, the cell has moved away, the candidate is the expected value, or
  the function panics. -/
  ends : ∀ o, (r.run turns).Answered o →
    (r.LeftToRivals turns ∧ Declines r expected turns o) ∨
      ∃ w before after, turns = before ++ .caller 0 :: after ∧
        r.PutsIn expected w before after ∧ o = .ok w
  /-- What it gives back was in the cell in the meantime. -/
  held : ∀ v, (r.run turns).Answered (.ok v) → r.HeldInCall turns v
  /-- It gives the expected value back only if that was its last candidate. -/
  expects : (r.run turns).Answered (.ok expected) →
    (r.proposals 0 turns).getLast? = some ⟨expected, .ok expected⟩
  /-- Its function runs only after the expected value was read. -/
  runs : ∀ before p, before ++ [.caller 0] <+: turns → (r.run before).proposal? 0 = some p →
    p.current = expected ∧ r.HasRead before expected
  /-- If rivals store only while its function runs, that runs once at most, and the call ends. -/
  confined : Confined step r turns →
    (r.proposals 0 turns).length ≤ 1 ∧ (5 ≤ ownSteps turns → ∃ o, (r.run turns).Answered o)

theorem PutsIn.heldInCall {r : Race σ V} {expected w : V} {before after : List (Turn V)}
    (h : r.PutsIn expected w before after) :
    r.HeldInCall (before ++ .caller 0 :: after) w :=
  ⟨before, ⟨after, by simp⟩, h.unanswered, h.holds [] (List.nil_prefix)⟩

theorem run_guarded (call : Call σ V) (expected : V) (hgoal : call.goal = .getOrSetIf expected)
    (first : V) (state : σ) (turns : List (Turn V)) :
    Guarded (start first state [[call]]) expected turns := by
  have hends : ∀ o, ((start first state [[call]]).run turns).Answered o →
      ((start first state [[call]]).LeftToRivals turns ∧
        Declines (start first state [[call]]) expected turns o) ∨
        ∃ w before after, turns = before ++ .caller 0 :: after ∧
          (start first state [[call]]).PutsIn expected w before after ∧ o = .ok w := by
    intro o ho
    rcases run_spares_or_exchanges hgoal first state turns with
      hspares | ⟨w, before, after, rfl, hexchanges⟩
    · exact Or.inl ⟨hspares.left, hspares.declines ho⟩
    · have hputs := hexchanges.putsIn after
      have hw := hputs.answers after List.prefix_rfl
      refine Or.inr ⟨w, before, after, rfl, hputs, ?_⟩
      cases ho.symm.trans hw
      rfl
  refine ⟨?_, hends, ?_, ?_, ?_, ?_⟩
  · rcases run_spares_or_exchanges hgoal first state turns with
      hspares | ⟨w, before, after, rfl, hexchanges⟩
    · exact Or.inl hspares.left
    · exact Or.inr ⟨w, before, after, rfl, hexchanges.putsIn after⟩
  · intro v hv
    rcases hends _ hv with ⟨-, hdeclines⟩ | ⟨w, before, after, rfl, hputs, hw⟩
    · cases hdeclines with
      | moved _ hheld => exact hheld
      | same _ hheld => exact hheld
    · cases hw
      exact hputs.heldInCall
  · intro hv
    rcases hends _ hv with ⟨-, hdeclines⟩ | ⟨w, before, after, rfl, hputs, hw⟩
    · cases hdeclines with
      | moved hne _ => exact absurd rfl hne
      | same hlast _ => exact hlast
    · cases hw
      exact absurd rfl hputs.other
  · intro before p _ hp
    rcases run_spares_or_exchanges hgoal first state before with
      hspares | ⟨w, before, after, rfl, hexchanges⟩
    · exact hspares.hasRead hp
    · obtain ⟨s, hrun⟩ := hexchanges.run
      rw [hrun] at hp
      cases hp
  · intro hconfined
    refine ⟨Stands.proposals_le hgoal turns .unread hconfined, fun hsteps => ?_⟩
    exact run_returns .shortcut hgoal first state turns hconfined hsteps

/-- A rival spoils the exchange of a first word and puts the expected one back, so that a second
word goes in, which another rival replaces; and rivals that store references only while the
function runs. -/
theorem run_guarded_examples :
    let supply : Call UInt8 UInt8 := ⟨.getOrSetIf 1, fun n _ => (.ok (n + 7), n + 1), none⟩
    let words : List (Turn UInt8) := [.caller 0, .caller 0, .rival 4, .caller 0, .rival 1,
      .caller 0, .caller 0, .caller 0, .rival 5]
    let new : Call Nat (Option Address) :=
      ⟨.getOrSetIf none, fun n _ => (.ok (some ⟨n⟩), n + 1), none⟩
    let refs : List (Turn (Option Address)) :=
      [.caller 0, .rival (some ⟨3⟩), .caller 0, .caller 0, .caller 0, .caller 0]
    (supply.goal = .getOrSetIf 1 ∧ Guarded (start 1 0 [[supply]]) 1 words ∧
      ((start 1 0 [[supply]]).run words).Answered (.ok 8) ∧
      ((start 1 0 [[supply]]).proposals 0 words).length = 2 ∧
      (start 1 0 [[supply]]).HeldInCall words 8) ∧
    (new.goal = .getOrSetIf none ∧ Guarded (start none 7 [[new]]) none refs ∧
      Confined step (start none 7 [[new]]) refs ∧
      ((start none 7 [[new]]).proposals 0 refs).length ≤ 1 ∧
      (start none 7 [[new]]).HeldInCall refs (some ⟨3⟩)) := by
  intro supply words new refs
  have hwords : Guarded (start 1 0 [[supply]]) 1 words := run_guarded supply 1 rfl 1 0 words
  have hrefs : Guarded (start none 7 [[new]]) none refs := run_guarded new none rfl none 7 refs
  have hconfined : Confined step (start none 7 [[new]]) refs := by decide
  have hanswer : ((start 1 0 [[supply]]).run words).Answered (.ok 8) := rfl
  exact ⟨⟨rfl, hwords, hanswer, by decide +kernel, hwords.held 8 hanswer⟩,
    ⟨rfl, hrefs, hconfined, (hrefs.confined hconfined).1, hrefs.held _ rfl⟩⟩

end SharedCells.Cas.Race
