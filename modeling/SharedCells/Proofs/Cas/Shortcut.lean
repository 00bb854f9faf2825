import SharedCells.Cas.Race

/-!
# The short cut of an expected candidate

A call that puts a value in while a cell holds an expected one leaves its exchange out when the
candidate is that very value, and gives the value back. It is meant to give back what the cell
holds afterwards. Here it is alone, and rivals store values only while its function runs; its
answer is held against that of a loop that attempts the exchange of every candidate.

* `attempt` is one step of that other loop, and `Confined` says when rivals store.
* `settled` tells how a call ends, from the values stored while its function ran.
* `Stands.own` and `Stands.rival` say what one step keeps, `Stands.run` what a schedule keeps.
* `run_returns`: a call ends within five of its own steps, in either loop.
* `run_held`: both loops leave the same value in the cell, and the other loop gives that value
  back. So does the short cut, unless the candidate is the expected value and a rival has
  stored another value meanwhile: then it gives the expected value back.
-/

namespace SharedCells.Cas.Race

variable {σ V : Type}

/-! ## Two loops -/

/-- What a loop does with a candidate that is the value read. -/
inductive Loop where
  /-- It answers at once. -/
  | shortcut
  /-- It attempts the exchange, as with every other candidate. -/
  | plain
deriving DecidableEq

section Steps

variable [DecidableEq V]

/-- One step of a loop that attempts the exchange of every candidate. -/
def attempt (r : Race σ V) : Turn V → Race σ V
  | .rival v => r.step (.rival v)
  | .caller i =>
    match r.callers[i]? with
    | some ⟨.proposing current, _, _, call :: _, _⟩ =>
      match call.propose r.state current with
      | (.error p, state) => { r with state }.finish i (.error p)
      | (.ok candidate, state) => { r with state }.goTo i (.exchanging current candidate)
    | _ => r.step (.caller i)

def Loop.step : Loop → Race σ V → Turn V → Race σ V
  | shortcut => Race.step
  | plain => attempt

theorem Loop.step_rival (loop : Loop) (r : Race σ V) (v : V) :
    loop.step r (.rival v) = { r with cell := v } := by
  cases loop <;> rfl

end Steps

/-! ## Rivals that store while a function runs -/

/-- The function of the first caller is running. -/
def computing (r : Race σ V) : Bool :=
  match r.callers with
  | ⟨.proposing _, _, _, _ :: _, _⟩ :: _ => true
  | _ => false

/-- Rivals store only while the function of the first caller runs. -/
def Confined (step : Race σ V → Turn V → Race σ V) : Race σ V → List (Turn V) → Prop
  | _, [] => True
  | r, .rival v :: turns => r.computing ∧ Confined step (step r (.rival v)) turns
  | r, .caller i :: turns => Confined step (step r (.caller i)) turns

instance decidableConfined (step : Race σ V → Turn V → Race σ V) :
    (r : Race σ V) → (turns : List (Turn V)) → Decidable (Confined step r turns)
  | _, [] => .isTrue trivial
  | r, .rival v :: turns =>
    have := decidableConfined step (step r (.rival v)) turns
    inferInstanceAs (Decidable (r.computing ∧ _))
  | r, .caller i :: turns => decidableConfined step (step r (.caller i)) turns

/-- The values that rivals store, the first one first. -/
def stores (turns : List (Turn V)) : List V :=
  turns.filterMap fun
    | .rival v => some v
    | .caller _ => none

/-- The steps of the first caller. -/
def ownSteps (turns : List (Turn V)) : Nat :=
  turns.countP fun
    | .caller 0 => true
    | _ => false

/-! ## One call -/

variable [DecidableEq V]

/-- A race of one caller that is still in its only call. -/
def alone (call : Call σ V) (cell : V) (state : σ) (phase : Phase V) (lost : UInt32)
    (pauses : List Pause) : Race σ V :=
  ⟨cell, state, [⟨phase, lost, pauses, [call], []⟩], []⟩

/-- A race of one caller that has ended its only call. -/
def concluded (cell : V) (state : σ) (log : List (Exchange V)) (o : Except Panic V) : Race σ V :=
  ⟨cell, state, [⟨.ready, 0, [], [], [o]⟩], log⟩

section Call

variable {loop : Loop} {call : Call σ V} {expected cell v w : V} {s s' : σ} {lost : UInt32}
  {pauses : List Pause}

theorem step_ready (hgoal : call.goal = .getOrSetIf expected) :
    loop.step (alone call cell s .ready lost pauses) (.caller 0) =
      if cell = expected then alone call cell s (.proposing cell) lost pauses
      else concluded cell s [] (.ok cell) := by
  have hstep : loop.step (alone call cell s .ready lost pauses) (.caller 0) =
      (alone call cell s .ready lost pauses).move 0 (call.goal.seen cell) := by
    cases loop <;> rfl
  rw [hstep, hgoal, Goal.seen]
  split <;> rfl

theorem step_proposing_error {p : Panic} (hp : call.propose s v = (.error p, s')) :
    loop.step (alone call cell s (.proposing v) lost pauses) (.caller 0) =
      concluded cell s' [] (.error p) := by
  cases loop <;> simp [Loop.step, step, attempt, advance, alone, hp, finish, idle, concluded]

/-- The loops differ in this step only. -/
theorem step_proposing_ok (hgoal : call.goal = .getOrSetIf expected)
    (hp : call.propose s v = (.ok w, s')) :
    loop.step (alone call cell s (.proposing v) lost pauses) (.caller 0) =
      if loop = .shortcut ∧ w = v then concluded cell s' [] (.ok v)
      else alone call cell s' (.exchanging v w) lost pauses := by
  cases loop with
  | plain => simp [Loop.step, attempt, alone, hp, goTo]
  | shortcut =>
    have hstep : Loop.shortcut.step (alone call cell s (.proposing v) lost pauses) (.caller 0) =
        (alone call cell s' (.proposing v) lost pauses).move 0 (call.goal.proposed v w) := by
      simp [Loop.step, step, advance, alone, hp]
    rw [hstep, hgoal, Goal.proposed]
    by_cases hw : w = v
    · rw [if_pos hw, if_pos ⟨rfl, hw⟩]
      rfl
    · rw [if_neg hw, if_neg fun h => hw h.2]
      rfl

theorem step_exchanging (hgoal : call.goal = .getOrSetIf expected) :
    loop.step (alone call cell s (.exchanging v w) lost pauses) (.caller 0) =
      if cell = v then concluded w s [⟨0, v, w⟩] (.ok w)
      else alone call cell s (if call.backoff.isSome then .pausing else .ready) lost pauses := by
  have hstep : loop.step (alone call cell s (.exchanging v w) lost pauses) (.caller 0) =
      advance (alone call cell s (.exchanging v w) lost pauses) 0 call (.exchanging v w) := by
    cases loop <;> rfl
  have hcell : (alone call cell s (.exchanging v w) lost pauses).cell = cell := rfl
  rw [hstep, advance, hgoal, Goal.exchanged, compareAndSet, hcell]
  by_cases hv : cell = v
  · rw [if_pos hv, if_pos hv]
    rfl
  · rw [if_neg hv, if_neg hv]
    rfl

theorem step_pausing :
    loop.step (alone call cell s .pausing lost pauses) (.caller 0) =
      alone call cell s .ready (Backoff.next lost)
        ((call.backoff.getD .standard).pause lost :: pauses) := by
  cases loop <;> rfl

theorem step_concluded (log : List (Exchange V)) (o : Except Panic V) :
    loop.step (concluded cell s log o) (.caller 0) = concluded cell s log o := by
  cases loop <;> rfl

end Call

/-! ## How a call ends -/

/-- What a cell holds once rivals have stored some values into it. -/
def held (first : V) (stored : List V) : V := stored.getLastD first

/-- The answer of a call and the value of the cell after it, given the first value of the cell,
what its function made and what rivals stored meanwhile. -/
def settled (loop : Loop) (expected first : V) (made : Except Panic V) (stored : List V) :
    Except Panic V × V :=
  if first = expected then
    match made with
    | .error p => (.error p, held first stored)
    | .ok w =>
      if loop = .shortcut ∧ w = expected then (.ok expected, held first stored)
      else if held first stored = expected then (.ok w, w)
      else (.ok (held first stored), held first stored)
  else (.ok first, first)

/-- The expected value was read and supplied, and yet the cell holds another one. -/
def Lapsed (expected first : V) (made : Except Panic V) (cell : V) : Prop :=
  first = expected ∧ made = .ok expected ∧ cell ≠ expected

section Settled

variable {expected first : V} {made : Except Panic V} {stored : List V}

/-- A loop that attempts every exchange gives back what it leaves in the cell. -/
theorem settled_plain {v : V} (h : (settled .plain expected first made stored).1 = .ok v) :
    (settled .plain expected first made stored).2 = v := by
  unfold settled at h ⊢
  split at h
  · rename_i hfirst
    rw [if_pos hfirst]
    cases made with
    | error p => cases h
    | ok w =>
      have hplain : ¬(Loop.plain = .shortcut ∧ w = expected) := fun hcut => nomatch hcut.1
      simp only [if_neg hplain] at h ⊢
      split at h <;> cases h
      · rename_i hheld
        rw [if_pos hheld]
      · rename_i hheld
        rw [if_neg hheld]
  · rename_i hfirst
    cases h
    rw [if_neg hfirst]

/-- The short cut gives the expected value back whatever the cell holds by then. -/
theorem settled_lapsed (h : Lapsed expected first made (held first stored)) (loop : Loop) :
    settled loop expected first made stored =
      (.ok (if loop = .shortcut then expected else held first stored), held first stored) := by
  obtain ⟨hfirst, rfl, hheld⟩ := h
  unfold settled
  rw [if_pos hfirst]
  cases loop with
  | shortcut => simp
  | plain => simp [hheld]

theorem settled_not_lapsed (h : ¬Lapsed expected first made (held first stored)) :
    settled .shortcut expected first made stored = settled .plain expected first made stored := by
  unfold settled
  split
  · rename_i hfirst
    cases made with
    | error p => rfl
    | ok w =>
      by_cases hw : w = expected
      · subst hw
        have hheld : held first stored = w := by
          by_cases hheld : held first stored = w
          · exact hheld
          · exact absurd ⟨hfirst, rfl, hheld⟩ h
        simp [hheld]
      · simp [hw]
  · rfl

/-- When the candidate is the expected value, the cell is left with what rivals made of it. -/
theorem lapsed_settled (loop : Loop) :
    Lapsed expected first made (settled loop expected first made stored).2 ↔
      Lapsed expected first made (held first stored) := by
  refine and_congr_right fun hfirst => and_congr_right fun hmade => ?_
  have hcell : (settled loop expected first made stored).2 = held first stored := by
    subst hfirst hmade
    unfold settled
    cases loop with
    | shortcut => simp
    | plain => by_cases hheld : held first stored = first <;> simp [hheld]
  rw [hcell]

end Settled

section Stands

variable {loop : Loop} {call : Call σ V} {expected first : V} {state : σ}

/-- How far a call has come when rivals have stored some values, and how many of its own steps
it still needs at most. A lost exchange means that a rival has moved the cell on, so that the
function runs once at most. -/
inductive Stands (loop : Loop) (call : Call σ V) (expected first : V) (state : σ) :
    List V → Nat → Race σ V → Prop
  | unread : Stands loop call expected first state [] 5 (alone call first state .ready 0 [])
  | computing {stored : List V} : first = expected →
    Stands loop call expected first state stored 4
      (alone call (held first stored) state (.proposing expected) 0 [])
  | attempting {stored : List V} {w : V} {s : σ} : first = expected →
    call.propose state expected = (.ok w, s) → ¬(loop = .shortcut ∧ w = expected) →
      Stands loop call expected first state stored 3
        (alone call (held first stored) s (.exchanging expected w) 0 [])
  | lost {stored : List V} {w : V} {s : σ} : first = expected →
    call.propose state expected = (.ok w, s) → ¬(loop = .shortcut ∧ w = expected) →
      held first stored ≠ expected →
        Stands loop call expected first state stored 2
          (alone call (held first stored) s .pausing 0 [])
  | again {stored : List V} {w : V} {s : σ} {lost : UInt32} {pauses : List Pause} :
    first = expected → call.propose state expected = (.ok w, s) →
      ¬(loop = .shortcut ∧ w = expected) → held first stored ≠ expected →
        Stands loop call expected first state stored 1
          (alone call (held first stored) s .ready lost pauses)
  | ended {stored : List V} {s : σ} {log : List (Exchange V)} {o : Except Panic V} {cell : V} :
    settled loop expected first (call.propose state expected).1 stored = (o, cell) →
      Stands loop call expected first state stored 0 (concluded cell s log o)

variable {stored : List V} {n : Nat} {r : Race σ V}

/-- A race with one caller is not changed by steps of others. -/
theorem Stands.other (h : Stands loop call expected first state stored n r) {i : Nat}
    (hi : i ≠ 0) : loop.step r (.caller i) = r := by
  obtain ⟨c, hc⟩ : ∃ c, r.callers = [c] := by cases h <;> exact ⟨_, rfl⟩
  have hnone : r.callers[i]? = none := by
    rw [hc]
    exact List.getElem?_eq_none (by simp; omega)
  cases loop <;> simp [Loop.step, step, attempt, hnone]

/-- A rival that stores while the function runs changes the cell and nothing else. -/
theorem Stands.rival (h : Stands loop call expected first state stored n r)
    (hcomputing : r.computing) (v : V) :
    Stands loop call expected first state (stored ++ [v]) n (loop.step r (.rival v)) := by
  rw [Loop.step_rival]
  cases h with
  | computing hfirst =>
    have hlast : held first (stored ++ [v]) = v := by simp [held]
    have hnext : Stands loop call expected first state (stored ++ [v]) 4 (alone call
        (held first (stored ++ [v])) state (.proposing expected) 0 []) := .computing hfirst
    rwa [hlast] at hnext
  | _ => exact nomatch hcomputing

/-- A step of the caller itself brings its call closer to its end. -/
theorem Stands.own (hgoal : call.goal = .getOrSetIf expected)
    (h : Stands loop call expected first state stored n r) :
    ∃ m ≤ n - 1, Stands loop call expected first state stored m (loop.step r (.caller 0)) := by
  cases h with
  | unread =>
    rw [step_ready hgoal]
    split
    · rename_i hfirst
      subst hfirst
      exact ⟨4, by omega, .computing rfl⟩
    · rename_i hfirst
      exact ⟨0, by omega, .ended (by unfold settled; exact if_neg hfirst)⟩
  | computing hfirst =>
    cases hp : call.propose state expected with
    | mk made s =>
      cases made with
      | error p =>
        rw [step_proposing_error hp]
        refine ⟨0, by omega, .ended ?_⟩
        unfold settled
        rw [if_pos hfirst, hp]
      | ok w =>
        rw [step_proposing_ok hgoal hp]
        split
        · rename_i hcut
          refine ⟨0, by omega, .ended ?_⟩
          unfold settled
          rw [if_pos hfirst, hp]
          exact if_pos hcut
        · rename_i hcut
          exact ⟨3, by omega, .attempting hfirst hp hcut⟩
  | attempting hfirst hp hcut =>
    rw [step_exchanging hgoal]
    split
    · rename_i hheld
      refine ⟨0, by omega, .ended ?_⟩
      unfold settled
      rw [if_pos hfirst, hp]
      simp only [if_neg hcut, if_pos hheld]
    · rename_i hheld
      cases call.backoff.isSome with
      | false => exact ⟨1, by omega, .again hfirst hp hcut hheld⟩
      | true => exact ⟨2, by omega, .lost hfirst hp hcut hheld⟩
  | lost hfirst hp hcut hheld =>
    rw [step_pausing]
    exact ⟨1, by omega, .again hfirst hp hcut hheld⟩
  | again hfirst hp hcut hheld =>
    rw [step_ready hgoal, if_neg hheld]
    refine ⟨0, by omega, .ended ?_⟩
    unfold settled
    rw [if_pos hfirst, hp]
    simp only [if_neg hcut, if_neg hheld]
  | ended hends =>
    rw [step_concluded]
    exact ⟨0, by omega, .ended hends⟩

theorem Stands.ends (h : Stands loop call expected first state stored 0 r) :
    ∃ o, r.callers.map Caller.answers = [[o]] := by
  cases h with
  | ended hends => exact ⟨_, rfl⟩

theorem Stands.answered (h : Stands loop call expected first state stored n r)
    {o : Except Panic V} (ho : r.callers.map Caller.answers = [[o]]) :
    settled loop expected first (call.propose state expected).1 stored = (o, r.cell) := by
  cases h with
  | ended hends =>
    cases ho
    exact hends
  | _ => cases ho

theorem Stands.run (hgoal : call.goal = .getOrSetIf expected) (turns : List (Turn V))
    (h : Stands loop call expected first state stored n r)
    (hconfined : Confined loop.step r turns) :
    ∃ m ≤ n - ownSteps turns,
      Stands loop call expected first state (stored ++ stores turns) m
        (turns.foldl loop.step r) := by
  induction turns generalizing stored n r with
  | nil => exact ⟨n, by simp [ownSteps], by simpa [stores] using h⟩
  | cons turn turns ih =>
    cases turn with
    | rival v =>
      obtain ⟨m, hm, hnext⟩ := ih (h.rival hconfined.1 v) hconfined.2
      refine ⟨m, by simpa [ownSteps] using hm, ?_⟩
      simpa [stores] using hnext
    | caller i =>
      have hstores : stores (.caller i :: turns) = stores turns := rfl
      rw [hstores]
      by_cases hi : i = 0
      · subst hi
        obtain ⟨k, hk, hown⟩ := h.own hgoal
        obtain ⟨m, hm, hnext⟩ := ih hown hconfined
        have hcount : ownSteps (.caller 0 :: turns) = ownSteps turns + 1 := by simp [ownSteps]
        exact ⟨m, by omega, hnext⟩
      · have hsame := h.other hi
        rw [Confined, hsame] at hconfined
        have hcount : ownSteps (.caller i :: turns) = ownSteps turns := by
          cases i with
          | zero => exact absurd rfl hi
          | succ i => simp [ownSteps]
        rw [List.foldl_cons, hsame, hcount]
        exact ih h hconfined

end Stands

/-! ## Both loops -/

section Runs

variable {call : Call σ V} {expected : V}

theorem run_stands (loop : Loop) (hgoal : call.goal = .getOrSetIf expected) (first : V)
    (state : σ) (turns : List (Turn V))
    (hconfined : Confined loop.step (start first state [[call]]) turns) :
    ∃ m ≤ 5 - ownSteps turns,
      Stands loop call expected first state (stores turns) m
        (turns.foldl loop.step (start first state [[call]])) :=
  Stands.unread.run hgoal turns hconfined

/-- A call of either loop returns: five of its own steps are enough. -/
theorem run_returns (loop : Loop) (hgoal : call.goal = .getOrSetIf expected) (first : V)
    (state : σ) (turns : List (Turn V))
    (hconfined : Confined loop.step (start first state [[call]]) turns)
    (hsteps : 5 ≤ ownSteps turns) :
    ∃ o, (turns.foldl loop.step (start first state [[call]])).callers.map Caller.answers =
      [[o]] := by
  obtain ⟨m, hm, hstands⟩ := run_stands loop hgoal first state turns hconfined
  obtain rfl : m = 0 := by omega
  exact hstands.ends

/-- Both loops leave the same value in the cell, and the one that attempts every exchange gives
that value back. The short cut does so too unless it lapses: then it gives the expected value
back, which the cell no longer holds. -/
theorem run_held (call : Call σ V) (expected : V) (hgoal : call.goal = .getOrSetIf expected)
    (first : V) (state : σ) (turns turns' : List (Turn V))
    (hconfined : Confined step (start first state [[call]]) turns)
    (hconfined' : Confined attempt (start first state [[call]]) turns')
    (hstores : stores turns = stores turns') (o o' : Except Panic V)
    (ho : ((start first state [[call]]).run turns).callers.map Caller.answers = [[o]])
    (ho' : (turns'.foldl attempt (start first state [[call]])).callers.map Caller.answers =
      [[o']]) :
    let cell := ((start first state [[call]]).run turns).cell
    let made := (call.propose state expected).1
    (turns'.foldl attempt (start first state [[call]])).cell = cell ∧
      (∀ v, o' = .ok v → v = cell) ∧
      (Lapsed expected first made cell → o = .ok expected ∧ o' = .ok cell) ∧
      (¬Lapsed expected first made cell → o = o') := by
  intro cell made
  obtain ⟨_, -, hstands⟩ := run_stands .shortcut hgoal first state turns hconfined
  obtain ⟨_, -, hstands'⟩ := run_stands .plain hgoal first state turns' hconfined'
  have hends : settled .shortcut expected first made (stores turns) = (o, cell) :=
    hstands.answered ho
  have hends' := hstands'.answered ho'
  have hlapsed : Lapsed expected first made
        (settled .shortcut expected first made (stores turns)).2 ↔
      Lapsed expected first made (held first (stores turns)) := lapsed_settled .shortcut
  rw [hends] at hlapsed
  rw [← hstores] at hends'
  change settled .plain expected first made (stores turns) =
    (o', (turns'.foldl attempt (start first state [[call]])).cell) at hends'
  generalize (turns'.foldl attempt (start first state [[call]])).cell = cell' at hends' ⊢
  have hgives : ∀ v, o' = .ok v → v = cell' := fun v hv => by
    have hplain : (settled .plain expected first made (stores turns)).1 = .ok v := by
      rw [hends', hv]
    rw [← settled_plain hplain, hends']
  by_cases hlapse : Lapsed expected first made (held first (stores turns))
  · have hcut := settled_lapsed hlapse .shortcut
    have hplain := settled_lapsed hlapse .plain
    rw [hends, if_pos rfl, Prod.mk.injEq] at hcut
    rw [hends', if_neg (by decide), Prod.mk.injEq] at hplain
    have hsame : cell' = cell := hplain.2.trans hcut.2.symm
    refine ⟨hsame, hsame ▸ hgives, fun _ => ⟨hcut.1, ?_⟩, fun h => absurd (hlapsed.2 hlapse) h⟩
    rw [hplain.1, hcut.2]
  · have hsame := settled_not_lapsed hlapse
    rw [hends, hends', Prod.mk.injEq] at hsame
    obtain ⟨rfl, hcell⟩ := hsame
    exact ⟨hcell.symm, hcell ▸ hgives, fun h => absurd (hlapsed.1 h) hlapse, fun _ => rfl⟩

end Runs

/-- A rival stores a word while the function supplies the expected one, and two rivals store
references while it supplies a new one. -/
theorem run_held_examples :
    let offer : Call Unit UInt8 := ⟨.getOrSetIf 1, fun s _ => (.ok 1, s), none⟩
    let words : List (Turn UInt8) := [.caller 0, .rival 4, .caller 0]
    let new : Call Nat (Option Address) :=
      ⟨.getOrSetIf none, fun n _ => (.ok (some ⟨n⟩), n + 1), some .standard⟩
    let refs : List (Turn (Option Address)) :=
      [.caller 0, .rival (some ⟨3⟩), .rival none, .caller 0, .caller 0]
    let raced := (start 1 () [[offer]]).run words
    let words' := words ++ [.caller 0, .caller 0]
    let raced' := words'.foldl attempt (start 1 () [[offer]])
    let settled := (start none 7 [[new]]).run refs
    let settled' := refs.foldl attempt (start none 7 [[new]])
    (Lapsed 1 1 (.ok 1) raced.cell ∧ raced'.cell = raced.cell ∧
      raced.callers.map Caller.answers = [[.ok 1]] ∧
      raced'.callers.map Caller.answers = [[.ok raced.cell]]) ∧
    (¬Lapsed none none (.ok (some ⟨7⟩)) settled.cell ∧ settled'.cell = settled.cell ∧
      settled.callers.map Caller.answers = [[.ok settled.cell]]) := by
  intro offer words new refs raced words' raced' settled settled'
  have hlapsed : Lapsed 1 1 (.ok 1) raced.cell := ⟨rfl, rfl, by decide⟩
  obtain ⟨hcell, -, hlapse, -⟩ := run_held offer 1 rfl 1 () words words' (by decide) (by decide)
    rfl (.ok 1) (.ok 4) rfl rfl
  have hother : ¬Lapsed none none (.ok (some ⟨7⟩)) settled.cell := fun h => by simp [Lapsed] at h
  obtain ⟨hcell', hgives, -, hsame⟩ := run_held new none rfl none 7 refs refs (by decide)
    (by decide) rfl (.ok (some ⟨7⟩)) (.ok (some ⟨7⟩)) rfl rfl
  refine ⟨⟨hlapsed, hcell, rfl, ?_⟩, hother, hcell', ?_⟩
  · rw [← (hlapse hlapsed).2]
    rfl
  · rw [← hgives _ rfl]
    rfl

/-- What is meant of the short cut does not hold of it: a rival stores 4 while the function
supplies the expected 1, and the call gives 1 back; likewise with an absent reference. -/
theorem shortcut_not_held :
    (¬∀ (call : Call Unit UInt8) (expected first v : UInt8) (turns : List (Turn UInt8)),
      call.goal = .getOrSetIf expected → Confined step (start first () [[call]]) turns →
        (stores turns).length ≤ 1 →
          ((start first () [[call]]).run turns).callers.map Caller.answers = [[.ok v]] →
            v = ((start first () [[call]]).run turns).cell) ∧
    ¬∀ (call : Call Unit (Option Address)) (expected first v : Option Address)
      (turns : List (Turn (Option Address))),
      call.goal = .getOrSetIf expected → Confined step (start first () [[call]]) turns →
        (stores turns).length ≤ 1 →
          ((start first () [[call]]).run turns).callers.map Caller.answers = [[.ok v]] →
            v = ((start first () [[call]]).run turns).cell := by
  refine ⟨fun h => ?_, fun h => ?_⟩
  · have hheld := h ⟨.getOrSetIf 1, fun s _ => (.ok 1, s), none⟩ 1 1 1
      [.caller 0, .rival 4, .caller 0] rfl (by decide) (by decide) rfl
    exact absurd hheld (by decide)
  · have hheld := h ⟨.getOrSetIf none, fun s _ => (.ok none, s), none⟩ none none none
      [.caller 0, .rival (some ⟨4⟩), .caller 0] rfl (by decide) (by decide) rfl
    exact absurd hheld (by decide)

end SharedCells.Cas.Race
