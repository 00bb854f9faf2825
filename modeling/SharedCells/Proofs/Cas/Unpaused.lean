import Mathlib.Data.List.Induction
import SharedCells.Proofs.Cas.Backoff
import SharedCells.Proofs.Cas.Proposals
import SharedCells.Proofs.Cas.Shortcut
import SharedCells.Proofs.Turns

/-!
# Pauses change nothing else

A call that backs off pauses after each exchange that it has lost. Its pauses apart, it does what
the same call does that starts over at once, whatever other callers and rivals do.

* `Race.unpaused` forgets policies and pauses, and `withoutPauses` leaves the pauses out of a
  schedule; `unpaused_step` says that a step is one of the race without pauses, or a pause.
* `Acts` says what a step makes of its caller; `Paced` and `PausesEach`, which pauses a call has
  made, are kept by all of it.
* `run_unpaused` is the result, for every schedule.
-/

namespace SharedCells.Cas

variable {σ V : Type}

/-! ## The race without pauses -/

/-- The call that starts over at once when it has lost an exchange. -/
def Call.unpaused (call : Call σ V) : Call σ V := { call with backoff := none }

/-- A call that pauses is about to start over. -/
def Phase.unpaused : Phase V → Phase V
  | .pausing => .ready
  | phase => phase

def Move.unpaused : Move V → Move V
  | .go phase => .go phase.unpaused
  | .answer v => .answer v

def Caller.unpaused (c : Caller σ V) : Caller σ V :=
  ⟨c.phase.unpaused, 0, [], c.calls.map Call.unpaused, c.answers⟩

namespace Race

def unpaused (r : Race σ V) : Race σ V := { r with callers := r.callers.map Caller.unpaused }

/-- A turn is a pause. -/
def pauses (r : Race σ V) : Turn V → Bool
  | .caller i =>
    match r.callers[i]? with
    | some ⟨.pausing, _, _, _ :: _, _⟩ => true
    | _ => false
  | .rival _ => false

/-- The turns of a caller. -/
def turnsOf (i : Nat) (turns : List (Turn V)) : Nat :=
  turns.countP fun
    | .caller j => j == i
    | .rival _ => false

theorem unpaused_start (first : V) (state : σ) (given : List (List (Call σ V))) :
    (start first state given).unpaused =
      start first state (given.map fun calls => calls.map Call.unpaused) := by
  simp [start, unpaused, Caller.unpaused, Phase.unpaused, idle, Function.comp_def]

theorem unpaused_modify (r : Race σ V) {i : Nat} {f f' : Caller σ V → Caller σ V}
    (h : ∀ c, r.callers[i]? = some c → (f c).unpaused = f' c.unpaused) :
    { r with callers := r.callers.modify i f }.unpaused =
      { r.unpaused with callers := r.unpaused.callers.modify i f' } :=
  congrArg (fun callers => { r with callers }) (map_modify h)

theorem unpaused_goTo (r : Race σ V) (i : Nat) (phase : Phase V) :
    (r.goTo i phase).unpaused = r.unpaused.goTo i phase.unpaused :=
  r.unpaused_modify fun _ _ => rfl

theorem unpaused_finish (r : Race σ V) (i : Nat) (answer : Except Panic V) :
    (r.finish i answer).unpaused = r.unpaused.finish i answer :=
  r.unpaused_modify fun c _ => by
    simp [Caller.unpaused, Phase.unpaused, idle]

theorem unpaused_move (r : Race σ V) (i : Nat) (move : Move V) :
    (r.move i move).unpaused = r.unpaused.move i move.unpaused := by
  cases move with
  | go phase => exact r.unpaused_goTo i phase
  | answer v => exact r.unpaused_finish i (.ok v)

section Goals

variable [DecidableEq V]

theorem unpaused_seen (goal : Goal V) (current : V) :
    (goal.seen current).unpaused = goal.seen current := by
  rcases goal.seen_eq current with h | h <;>
  · rw [h]
    rfl

theorem unpaused_proposed (goal : Goal V) (current candidate : V) :
    (goal.proposed current candidate).unpaused = goal.proposed current candidate := by
  rcases goal.proposed_eq current candidate with h | h <;>
  · rw [h]
    rfl

end Goals

/-! ## One step -/

variable [DecidableEq V] {r : Race σ V} {turn : Turn V}

/-- The pause of a caller. -/
def rest (call : Call σ V) (c : Caller σ V) : Caller σ V :=
  { c with
    phase := .ready
    lost := Backoff.next c.lost
    pauses := (call.backoff.getD .standard).pause c.lost :: c.pauses }

/-- What one step of a caller makes of it, and how often its function runs in it. -/
inductive Acts (c : Caller σ V) : Caller σ V → Nat → Prop
  | reads {v : V} : c.phase = .ready → Acts c { c with phase := .proposing v } 0
  | proposes {v w : V} : c.phase = .proposing v → Acts c { c with phase := .exchanging v w } 1
  | loses {v w : V} {call : Call σ V} : c.phase = .exchanging v w → c.calls.head? = some call →
    Acts c { c with phase := if call.backoff.isSome then .pausing else .ready } 0
  | rests {call : Call σ V} : c.phase = .pausing → c.calls.head? = some call →
    Acts c (rest call c) 0
  | ends {o : Except Panic V} {n : Nat} :
    Acts c { idle c.calls.tail with answers := c.answers ++ [o] } n

theorem step_acts {i : Nat} {c : Caller σ V} (hc : r.callers[i]? = some c) :
    c.calls = [] ∧ r.step (.caller i) = r ∨
      ∃ f n, Acts c (f c) n ∧ (r.step (.caller i)).callers = r.callers.modify i f ∧
        (r.proposalOn i (.caller i)).toList.length = n := by
  obtain ⟨phase, lost, pauses, calls, answers⟩ := c
  cases calls with
  | nil => exact Or.inl ⟨rfl, by rw [step, hc]⟩
  | cons call calls =>
    refine Or.inr ?_
    have hstep : r.step (.caller i) = r.advance i call phase := by rw [step, hc]
    rw [hstep, proposalOn, if_pos rfl]
    cases phase with
    | ready =>
      have hnone : r.proposal? i = none := by rw [proposal?, hc]
      rw [advance, hnone]
      rcases call.goal.seen_eq r.cell with hseen | hseen <;> rw [hseen]
      · exact ⟨_, 0, .reads rfl, rfl, rfl⟩
      · exact ⟨_, 0, .ends, rfl, rfl⟩
    | proposing current =>
      have hsome : r.proposal? i = some ⟨current, (call.propose r.state current).1⟩ := by
        rw [proposal?, hc]
      rw [advance, hsome]
      split
      · exact ⟨_, 1, .ends, rfl, rfl⟩
      · rename_i candidate s hp
        rcases call.goal.proposed_eq current candidate with hproposed | hproposed <;>
          rw [hproposed]
        · exact ⟨_, 1, .proposes rfl, rfl, rfl⟩
        · exact ⟨_, 1, .ends, rfl, rfl⟩
    | exchanging current candidate =>
      have hnone : r.proposal? i = none := by rw [proposal?, hc]
      rw [advance, hnone, Goal.exchanged_eq]
      by_cases hsame : r.cell = current
      · rw [if_pos hsame]
        exact ⟨_, 0, .ends, rfl, rfl⟩
      · rw [if_neg hsame]
        exact ⟨_, 0, .loses rfl rfl, rfl, rfl⟩
    | pausing =>
      have hnone : r.proposal? i = none := by rw [proposal?, hc]
      rw [hnone]
      exact ⟨_, 0, .rests rfl rfl, rfl, rfl⟩

theorem unpaused_advance (r : Race σ V) (i : Nat) (call : Call σ V) {phase : Phase V}
    (hphase : phase ≠ .pausing) :
    (r.advance i call phase).unpaused = r.unpaused.advance i call.unpaused phase := by
  cases phase with
  | ready =>
    exact (r.unpaused_move i _).trans (congrArg (r.unpaused.move i) (unpaused_seen _ _))
  | proposing current =>
    obtain ⟨made, s, hp⟩ : ∃ made s, call.propose r.state current = (made, s) := ⟨_, _, rfl⟩
    have hp' : call.unpaused.propose r.unpaused.state current = (made, s) := hp
    rw [advance, advance, hp, hp']
    cases made with
    | error p => exact unpaused_finish _ i (.error p)
    | ok w => exact (unpaused_move _ i _).trans (congrArg _ (unpaused_proposed _ _ _))
  | exchanging current candidate =>
    have hcell : r.unpaused.cell = r.cell := rfl
    rw [advance, advance, Goal.exchanged_eq, Goal.exchanged_eq, hcell]
    by_cases hsame : r.cell = current
    · rw [if_pos hsame, if_pos hsame]
      exact unpaused_finish _ i _
    · rw [if_neg hsame, if_neg hsame]
      refine (unpaused_goTo _ i _).trans ?_
      cases call.backoff <;> rfl
  | pausing => exact absurd rfl hphase

/-- A turn that is a pause, and what it does. -/
theorem step_of_pauses (h : r.pauses turn) :
    ∃ i c call, turn = .caller i ∧ r.callers[i]? = some c ∧ c.phase = .pausing ∧
      r.step turn = { r with callers := r.callers.modify i (rest call) } := by
  cases turn with
  | rival v => cases h
  | caller i =>
    rw [pauses] at h
    split at h
    · rename_i lost pauses call calls answers hc
      exact ⟨i, _, call, rfl, hc, rfl, by rw [step, hc]; rfl⟩
    · cases h

/-- The race without pauses stands still during a pause. -/
theorem unpaused_step_of_pauses (h : r.pauses turn) : (r.step turn).unpaused = r.unpaused := by
  obtain ⟨i, c, call, rfl, hc, hphase, hstep⟩ := step_of_pauses h
  have hsame : { r with callers := r.callers.modify i (rest call) }.unpaused =
      { r.unpaused with callers := r.unpaused.callers.modify i id } :=
    r.unpaused_modify fun c' hc' => by
      obtain rfl : c = c' := Option.some.inj (hc.symm.trans hc')
      rw [Caller.unpaused, Caller.unpaused, hphase]
      rfl
  rw [hstep, hsame, List.modify_id]

/-- Every other step is one of the race without pauses. -/
theorem unpaused_step (h : r.pauses turn = false) :
    (r.step turn).unpaused = r.unpaused.step turn := by
  cases turn with
  | rival v => rfl
  | caller i =>
    have hcaller : r.unpaused.callers[i]? = r.callers[i]?.map Caller.unpaused :=
      List.getElem?_map
    rw [step, step, hcaller]
    cases hc : r.callers[i]? with
    | none => rfl
    | some c =>
      obtain ⟨phase, lost, pauses, calls, answers⟩ := c
      cases calls with
      | nil => rfl
      | cons call calls =>
        have hphase : phase ≠ .pausing := by
          rintro rfl
          rw [Race.pauses, hc] at h
          cases h
        have hsame : phase.unpaused = phase := by
          cases phase with
          | pausing => cases hphase rfl
          | _ => rfl
        have hcaller : Caller.unpaused ⟨phase, lost, pauses, call :: calls, answers⟩ =
            ⟨phase, 0, [], call.unpaused :: calls.map Call.unpaused, answers⟩ := by
          rw [Caller.unpaused, hsame]
          rfl
        rw [Option.map_some, hcaller]
        exact r.unpaused_advance i call hphase

omit [DecidableEq V] in
/-- A function runs in neither race, or in both of them. -/
theorem proposalOn_unpaused (r : Race σ V) (i : Nat) (turn : Turn V) :
    r.unpaused.proposalOn i turn = r.proposalOn i turn := by
  cases turn with
  | rival v => rfl
  | caller j =>
    have hcaller : r.unpaused.callers[i]? = r.callers[i]?.map Caller.unpaused :=
      List.getElem?_map
    have hproposal : r.unpaused.proposal? i = r.proposal? i := by
      rw [proposal?, proposal?, hcaller]
      cases hc : r.callers[i]? with
      | none => rfl
      | some c =>
        obtain ⟨phase, lost, pauses, calls, answers⟩ := c
        cases phase <;> cases calls <;> rfl
    rw [proposalOn, proposalOn, hproposal]

theorem proposalOn_of_pauses (h : r.pauses turn) (i : Nat) : r.proposalOn i turn = none := by
  obtain ⟨j, c, call, rfl, hc, hphase, -⟩ := step_of_pauses h
  obtain ⟨phase, lost, pauses, calls, answers⟩ := c
  cases hphase
  by_cases hij : j = i
  · subst hij
    rw [proposalOn, if_pos rfl, proposal?, hc]
  · exact if_neg hij

/-- A caller makes one pause at a time. -/
theorem pauses_step_of_pauses (h : r.pauses turn) : (r.step turn).pauses turn = false := by
  obtain ⟨i, c, call, rfl, hc, -, hstep⟩ := step_of_pauses h
  rw [hstep, pauses, List.getElem?_modify_eq, hc]
  rfl

/-- A caller is left to itself. -/
theorem getElem?_step_of_ne {i : Nat} (hturn : turn ≠ .caller i) :
    (r.step turn).callers[i]? = r.callers[i]? := by
  cases turn with
  | rival v => rfl
  | caller j =>
    have hij : j ≠ i := fun hij => hturn (hij ▸ rfl)
    cases hc : r.callers[j]? with
    | none => rw [step, hc]
    | some c =>
      rcases step_acts hc with ⟨-, hstep⟩ | ⟨f, n, -, hcallers, -⟩
      · rw [hstep]
      · rw [hcallers, List.getElem?_modify_ne _ _ hij]

theorem pauses_step_of_ne {i : Nat} (hturn : turn ≠ .caller i) :
    (r.step turn).pauses (.caller i) = r.pauses (.caller i) := by
  rw [pauses, pauses, getElem?_step_of_ne hturn]

omit [DecidableEq V] in
theorem proposalOn_of_ne {i : Nat} (hturn : turn ≠ .caller i) : r.proposalOn i turn = none := by
  cases turn with
  | rival v => rfl
  | caller j => exact if_neg fun hij : j = i => hturn (hij ▸ rfl)

/-! ## A schedule -/

/-- A schedule without its pauses. -/
def withoutPauses (r : Race σ V) : List (Turn V) → List (Turn V)
  | [] => []
  | turn :: turns =>
    if r.pauses turn then (r.step turn).withoutPauses turns
    else turn :: (r.step turn).withoutPauses turns

theorem withoutPauses_cons_of_pauses (h : r.pauses turn) (turns : List (Turn V)) :
    r.withoutPauses (turn :: turns) = (r.step turn).withoutPauses turns :=
  if_pos h

theorem withoutPauses_cons (h : r.pauses turn = false) (turns : List (Turn V)) :
    r.withoutPauses (turn :: turns) = turn :: (r.step turn).withoutPauses turns :=
  if_neg (by rw [h]; exact Bool.false_ne_true)

theorem unpaused_run (r : Race σ V) (turns : List (Turn V)) :
    (r.run turns).unpaused = r.unpaused.run (r.withoutPauses turns) := by
  induction turns generalizing r with
  | nil => rfl
  | cons turn turns ih =>
    have hrun : (r.run (turn :: turns)).unpaused =
        (r.step turn).unpaused.run ((r.step turn).withoutPauses turns) := ih _
    rw [hrun]
    cases hpauses : r.pauses turn with
    | true => rw [withoutPauses_cons_of_pauses hpauses, unpaused_step_of_pauses hpauses]
    | false => rw [withoutPauses_cons hpauses, unpaused_step hpauses]; rfl

theorem proposals_unpaused (r : Race σ V) (i : Nat) (turns : List (Turn V)) :
    r.unpaused.proposals i (r.withoutPauses turns) = r.proposals i turns := by
  induction turns generalizing r with
  | nil => rfl
  | cons turn turns ih =>
    rw [proposals, ← ih]
    cases hpauses : r.pauses turn with
    | true =>
      rw [withoutPauses_cons_of_pauses hpauses, proposalOn_of_pauses hpauses,
        unpaused_step_of_pauses hpauses]
      rfl
    | false =>
      rw [withoutPauses_cons hpauses, proposals, proposalOn_unpaused, unpaused_step hpauses]

theorem stores_withoutPauses (r : Race σ V) (turns : List (Turn V)) :
    stores (r.withoutPauses turns) = stores turns := by
  induction turns generalizing r with
  | nil => rfl
  | cons turn turns ih =>
    cases hpauses : r.pauses turn with
    | true =>
      obtain ⟨i, c, call, rfl, -⟩ := step_of_pauses hpauses
      rw [withoutPauses_cons_of_pauses hpauses, ih]
      rfl
    | false =>
      rw [withoutPauses_cons hpauses]
      cases turn with
      | caller i => exact ih _
      | rival v => exact congrArg (v :: ·) (ih _)

/-- A caller makes at most every second of its steps a pause. -/
theorem turnsOf_le (r : Race σ V) (i : Nat) (turns : List (Turn V)) :
    turnsOf i turns ≤
      2 * turnsOf i (r.withoutPauses turns) + (r.pauses (.caller i)).toNat := by
  induction turns generalizing r with
  | nil => exact Nat.zero_le _
  | cons turn turns ih =>
    have hrest := ih (r.step turn)
    by_cases hturn : turn = .caller i
    · subst hturn
      have hcons (turns' : List (Turn V)) :
          turnsOf i (.caller i :: turns') = turnsOf i turns' + 1 := by
        simp [turnsOf]
      cases hpauses : r.pauses (.caller i) with
      | true =>
        -- The step after a pause is none.
        rw [pauses_step_of_pauses hpauses] at hrest
        rw [withoutPauses_cons_of_pauses hpauses, hcons]
        exact Nat.succ_le_succ hrest
      | false =>
        have hone := Bool.toNat_le ((r.step (.caller i)).pauses (.caller i))
        rw [withoutPauses_cons hpauses, hcons, hcons]
        omega
    · have hcons (turns' : List (Turn V)) : turnsOf i (turn :: turns') = turnsOf i turns' := by
        cases turn with
        | rival v => simp [turnsOf]
        | caller j =>
          have hij : j ≠ i := fun hij => hturn (hij ▸ rfl)
          simp [turnsOf, hij]
      rw [pauses_step_of_ne hturn] at hrest
      rw [hcons]
      cases hpauses : r.pauses turn with
      | true => rwa [withoutPauses_cons_of_pauses hpauses]
      | false => rwa [withoutPauses_cons hpauses, hcons]

/-- Every schedule of the race without pauses is what is left of a schedule with them. -/
theorem exists_withoutPauses (r : Race σ V) (turns : List (Turn V)) :
    ∃ turns', r.withoutPauses turns' = turns := by
  induction turns generalizing r with
  | nil => exact ⟨[], rfl⟩
  | cons turn turns ih =>
    cases hpauses : r.pauses turn with
    | true =>
      -- The caller makes its pause first.
      obtain ⟨turns', hturns⟩ := ih ((r.step turn).step turn)
      refine ⟨turn :: turn :: turns', ?_⟩
      rw [withoutPauses_cons_of_pauses hpauses,
        withoutPauses_cons (pauses_step_of_pauses hpauses), hturns]
    | false =>
      obtain ⟨turns', hturns⟩ := ih (r.step turn)
      exact ⟨turn :: turns', by rw [withoutPauses_cons hpauses, hturns]⟩

/-! ## The pauses of a call -/

/-- A call has made the pauses of its policy in turn, and counts them. -/
structure Paced (c : Caller σ V) : Prop where
  lost : c.lost = Backoff.counted c.pauses.length
  pauses : ∀ call ∈ c.calls.head?, c.pauses.reverse =
    (List.range c.pauses.length).map fun k =>
      (call.backoff.getD .standard).pause (Backoff.counted k)

omit [DecidableEq V] in
theorem paced_idle (calls : List (Call σ V)) : Paced (idle calls) := ⟨rfl, fun _ _ => rfl⟩

omit [DecidableEq V] in
theorem Acts.paced {c c' : Caller σ V} {n : Nat} (h : Acts c c' n) (hc : Paced c) : Paced c' := by
  cases h with
  | ends => exact ⟨rfl, fun _ _ => rfl⟩
  | @rests call hphase hcall =>
    refine ⟨?_, fun call' hcall' => ?_⟩
    · have hlost : (rest call c).lost = Backoff.next c.lost := rfl
      rw [hlost, hc.lost, Backoff.next_counted]
      rfl
    · obtain rfl : call = call' := Option.some.inj (hcall.symm.trans hcall')
      have hpauses : (rest call c).pauses =
          (call.backoff.getD .standard).pause c.lost :: c.pauses := rfl
      rw [hpauses, List.reverse_cons, hc.pauses call hcall, hc.lost, List.length_cons,
        List.range_succ, List.map_append]
      rfl
  | _ => exact ⟨hc.lost, hc.pauses⟩

/-- The candidate that a call has made and not yet lost or put in, or has lost and not yet made its
pause for. -/
def pending : Phase V → Nat
  | .exchanging _ _ | .pausing => 1
  | .ready | .proposing _ => 0

/-- The first call of a caller that backs off makes a pause for each attempt but the last one. -/
def PausesEach (n : Nat) (c : Caller σ V) : Prop :=
  c.answers = [] → ∀ call ∈ c.calls.head?, call.backoff.isSome →
    n = c.pauses.length + pending c.phase

omit [DecidableEq V] in
theorem Acts.pausesEach {c c' : Caller σ V} {m n : Nat} (h : Acts c c' n) (hc : PausesEach m c) :
    PausesEach (m + n) c' := by
  intro hanswers call hcall hbackoff
  cases h with
  | ends => simp at hanswers
  | reads hphase =>
    have hm := hc hanswers call hcall hbackoff
    rw [hphase] at hm
    exact hm
  | proposes hphase =>
    have hm := hc hanswers call hcall hbackoff
    rw [hphase] at hm
    exact congrArg (· + 1) hm
  | @loses v w call' hphase hcall' =>
    obtain rfl : call' = call := Option.some.inj (hcall'.symm.trans hcall)
    have hm := hc hanswers call' hcall hbackoff
    rw [hphase] at hm
    rw [if_pos hbackoff]
    exact hm
  | rests hphase =>
    have hm := hc hanswers call hcall hbackoff
    rw [hphase] at hm
    exact hm

theorem paced_step (h : ∀ c ∈ r.callers, Paced c) : ∀ c ∈ (r.step turn).callers, Paced c := by
  cases turn with
  | rival v => exact h
  | caller i =>
    cases hi : r.callers[i]? with
    | none =>
      rw [step, hi]
      exact h
    | some c =>
      rcases step_acts hi with ⟨-, hstep⟩ | ⟨f, n, hacts, hcallers, -⟩
      · rwa [hstep]
      · intro c' hc'
        rw [hcallers] at hc'
        rcases mem_modify hc' with hmem | ⟨a, ha, rfl⟩
        · exact h c' hmem
        · obtain rfl : c = a := Option.some.inj (hi.symm.trans ha)
          exact hacts.paced (h c (List.mem_of_getElem? hi))

theorem paced_run (h : ∀ c ∈ r.callers, Paced c) (turns : List (Turn V)) :
    ∀ c ∈ (r.run turns).callers, Paced c := by
  induction turns generalizing r with
  | nil => exact h
  | cons turn turns ih => exact ih (paced_step h)

theorem pausesEach_run {i : Nat} (hstart : ∀ c, r.callers[i]? = some c → PausesEach 0 c)
    (turns : List (Turn V)) :
    ∀ c, (r.run turns).callers[i]? = some c → PausesEach (r.proposals i turns).length c := by
  induction turns using List.reverseRecOn with
  | nil => exact hstart
  | append_singleton turns turn ih =>
    intro c hc
    have hlast : (r.run (turns ++ [turn])).callers = ((r.run turns).step turn).callers :=
      congrArg callers (run_append r turns [turn])
    rw [proposals_concat, List.length_append]
    rw [hlast] at hc
    by_cases hturn : turn = .caller i
    · subst hturn
      cases hbefore : (r.run turns).callers[i]? with
      | none =>
        rw [step, hbefore, hbefore] at hc
        cases hc
      | some c' =>
        rcases step_acts hbefore with ⟨hcalls, hstep⟩ | ⟨f, n, hacts, hcallers, hn⟩
        · rw [hstep, hbefore] at hc
          obtain rfl : c' = c := Option.some.inj hc
          intro _ call hcall
          rw [hcalls] at hcall
          cases hcall
        · rw [hcallers, List.getElem?_modify_eq, hbefore] at hc
          obtain rfl : f c' = c := Option.some.inj hc
          rw [hn]
          exact hacts.pausesEach (ih c' hbefore)
    · rw [getElem?_step_of_ne hturn] at hc
      rw [proposalOn_of_ne hturn]
      exact ih c hc

/-! ## The result -/

/-- What a schedule does, and what it does without its pauses. -/
structure SameAttempts (r : Race σ V) (turns : List (Turn V)) : Prop where
  cell : (r.unpaused.run (r.withoutPauses turns)).cell = (r.run turns).cell
  state : (r.unpaused.run (r.withoutPauses turns)).state = (r.run turns).state
  log : (r.unpaused.run (r.withoutPauses turns)).log = (r.run turns).log
  answers : (r.unpaused.run (r.withoutPauses turns)).callers.map Caller.answers =
    (r.run turns).callers.map Caller.answers
  /-- The functions run on the same values and make the same of them, and panic at the same
  attempt. -/
  proposals : ∀ i, r.unpaused.proposals i (r.withoutPauses turns) = r.proposals i turns
  stores : stores (r.withoutPauses turns) = stores turns
  /-- No caller comes to a standstill in its pauses. -/
  turns : ∀ i, turnsOf i turns ≤ 2 * turnsOf i (r.withoutPauses turns) + 1

theorem sameAttempts (r : Race σ V) (turns : List (Turn V)) : SameAttempts r turns := by
  have hunpaused := r.unpaused_run turns
  have hanswers : (r.run turns).unpaused.callers.map Caller.answers =
      (r.run turns).callers.map Caller.answers := by
    rw [unpaused, List.map_map]
    rfl
  refine ⟨?_, ?_, ?_, ?_, fun i => r.proposals_unpaused i turns, r.stores_withoutPauses turns,
    fun i => ?_⟩
  · rw [← hunpaused]; rfl
  · rw [← hunpaused]; rfl
  · rw [← hunpaused]; rfl
  · rw [← hunpaused, hanswers]
  · have hle := r.turnsOf_le i turns
    have hone := Bool.toNat_le (r.pauses (.caller i))
    omega

/-- Calls that back off make the attempts that the same calls make without their pauses, in every
schedule of either race; and in their pauses nothing overflows. -/
theorem run_unpaused (given : List (List (Call σ V))) (first : V) (state : σ) :
    let r := start first state given
    r.unpaused = start first state (given.map fun calls => calls.map Call.unpaused) ∧
      (∀ turns, SameAttempts r turns) ∧
      (∀ turns, ∃ turns', r.withoutPauses turns' = turns) ∧
      (∀ turns, (∀ c ∈ (r.run turns).callers, Paced c) ∧
        ∀ (i : Nat) (c : Caller σ V), (r.run turns).callers[i]? = some c →
          PausesEach (r.proposals i turns).length c) ∧
      ∀ (b : Backoff) (n : Nat), b.Fits n := by
  have hidle {c : Caller σ V} (hc : c ∈ (start first state given).callers) :
      ∃ calls, idle calls = c := by
    obtain ⟨calls, -, hcalls⟩ := List.mem_map.1 hc
    exact ⟨calls, hcalls⟩
  refine ⟨unpaused_start first state given, sameAttempts _, exists_withoutPauses _,
    fun turns => ⟨paced_run (fun c hc => ?_) turns, fun i => pausesEach_run (fun c hc => ?_) turns⟩,
    Backoff.fits⟩
  · obtain ⟨calls, rfl⟩ := hidle hc
    exact paced_idle calls
  · obtain ⟨calls, rfl⟩ := hidle (List.mem_of_getElem? hc)
    exact fun _ _ _ _ => rfl

end Race

end SharedCells.Cas
