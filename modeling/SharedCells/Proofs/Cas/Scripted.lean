import Mathlib.Data.Nat.Find
import SharedCells.Proofs.Cas.Chain
import SharedCells.Proofs.Cas.Proposals
import SharedCells.Proofs.Cas.Shortcut

/-!
# Rivals that follow a script

A call that updates a cell is alone with rivals, and a script tells which value they store while
its function runs for the first time, the second time, and so on. A value other than the one that
the call has read makes it lose its exchange and start over.

* `readOn` and `stateOn` are the value and the state that the function is given on each attempt,
  and `madeOn` is what it makes of them, as long as rivals spoil every attempt.
* `run_attempt` is one attempt, `run_attempts` any number of them, by induction.
* `run_scripted`: the last attempt is the first one on which no other value is stored.
-/

namespace SharedCells.Cas.Race

variable {σ V : Type}

/-! ## Scripts -/

/-- The value that rivals store on an attempt, if they store one. -/
def storedOn (script : List (Option V)) (k : Nat) : Option V := script[k]?.join

/-- The value in the cell before an attempt, when all attempts before it are spoilt. -/
def readOn (first : V) (script : List (Option V)) : Nat → V
  | 0 => first
  | k + 1 => (storedOn script k).getD (readOn first script k)

/-- The state of the function before an attempt, when all attempts before it are spoilt. -/
def stateOn (propose : σ → V → Except Panic V × σ) (first : V) (state : σ)
    (script : List (Option V)) : Nat → σ
  | 0 => state
  | k + 1 => (propose (stateOn propose first state script k) (readOn first script k)).2

/-- What the function makes on an attempt, when all attempts before it are spoilt. -/
def madeOn (propose : σ → V → Except Panic V × σ) (first : V) (state : σ)
    (script : List (Option V)) (k : Nat) : Except Panic V :=
  (propose (stateOn propose first state script k) (readOn first script k)).1

/-- An attempt is the first one on which rivals store nothing, or the very value that was read. -/
structure FirstUndisturbed (first : V) (script : List (Option V)) (n : Nat) : Prop where
  undisturbed : storedOn script n = none ∨ storedOn script n = some (readOn first script n)
  disturbed : ∀ k < n, ∃ v, storedOn script k = some v ∧ v ≠ readOn first script k

/-- One attempt: the call reads the cell, rivals may store a value while its function runs, and
it makes its exchange. -/
def attemptTurns (rival : Option V) : List (Turn V) :=
  .caller 0 :: ((rival.map .rival).toList ++ [.caller 0, .caller 0])

/-- The first attempts along a script. -/
def attemptsTurns (script : List (Option V)) (n : Nat) : List (Turn V) :=
  (List.range n).flatMap fun k => attemptTurns (storedOn script k)

theorem attemptsTurns_succ (script : List (Option V)) (n : Nat) :
    attemptsTurns script (n + 1) = attemptsTurns script n ++ attemptTurns (storedOn script n) := by
  rw [attemptsTurns, List.range_succ, List.flatMap_append, List.flatMap_singleton]
  rfl

/-- Every script has an attempt that is not disturbed, at the latest when it is over. -/
theorem exists_firstUndisturbed [DecidableEq V] (first : V) (script : List (Option V)) :
    ∃ n, FirstUndisturbed first script n := by
  have hover : ∃ n, storedOn script n = none ∨ storedOn script n = some (readOn first script n) :=
    ⟨script.length, Or.inl (by simp [storedOn])⟩
  refine ⟨Nat.find hover, Nat.find_spec hover, fun k hk => ?_⟩
  obtain ⟨hsome, hne⟩ := not_or.1 (Nat.find_min hover hk)
  obtain ⟨v, hv⟩ := Option.ne_none_iff_exists'.1 hsome
  exact ⟨v, hv, fun heq => hne (heq ▸ hv)⟩

/-! ## One attempt -/

section Attempt

variable [DecidableEq V] {goal : Goal V} {propose : σ → V → Except Panic V × σ} {cell v w : V}
  {s s' : σ}

theorem step_reads (hgoal : goal.Replaces) :
    (alone ⟨goal, propose, none⟩ cell s .ready 0 []).step (.caller 0) =
      alone ⟨goal, propose, none⟩ cell s (.proposing cell) 0 [] := by
  cases goal with
  | getOrSetIf expected => cases hgoal
  | _ => rfl

theorem step_proposes (hgoal : goal.Replaces) (hp : propose s v = (.ok w, s')) :
    (alone ⟨goal, propose, none⟩ cell s (.proposing v) 0 []).step (.caller 0) =
      alone ⟨goal, propose, none⟩ cell s' (.exchanging v w) 0 [] := by
  cases goal with
  | getOrSetIf expected => cases hgoal
  | _ => simp [step, advance, alone, hp, Goal.proposed, move, goTo]

theorem step_exchanges :
    (alone ⟨goal, propose, none⟩ cell s (.exchanging v w) 0 []).step (.caller 0) =
      if cell = v then concluded w s [⟨0, v, w⟩] (.ok (goal.result v w))
      else alone ⟨goal, propose, none⟩ cell s .ready 0 [] := by
  have hcell : (alone ⟨goal, propose, none⟩ cell s (.exchanging v w) 0 []).cell = cell := rfl
  have hstep : (alone ⟨goal, propose, none⟩ cell s (.exchanging v w) 0 []).step (.caller 0) =
      advance (alone ⟨goal, propose, none⟩ cell s (.exchanging v w) 0 []) 0
        ⟨goal, propose, none⟩ (.exchanging v w) := rfl
  rw [hstep, advance, Goal.exchanged_eq, hcell]
  by_cases hv : cell = v
  · rw [if_pos hv, if_pos hv]
    rfl
  · rw [if_neg hv, if_neg hv]
    rfl

theorem run_stores (call : Call σ V) (phase : Phase V) (rival : Option V) :
    (alone call cell s phase 0 []).run (rival.map .rival).toList =
      alone call (rival.getD cell) s phase 0 [] := by
  cases rival <;> rfl

/-- Where an attempt leads, from the value read, the value in the cell at its end, and what the
function has made: a panic ends the call, the exchange ends it, or that is lost. -/
def afterAttempt (goal : Goal V) (propose : σ → V → Except Panic V × σ) (cell later : V) (s : σ) :
    Except Panic V → Race σ V
  | .error p => concluded later s [] (.error p)
  | .ok w =>
    if later = cell then concluded w s [⟨0, cell, w⟩] (.ok (goal.result cell w))
    else alone ⟨goal, propose, none⟩ later s .ready 0 []

theorem run_attempt (hgoal : goal.Replaces) (rival : Option V) :
    (alone ⟨goal, propose, none⟩ cell s .ready 0 []).run (attemptTurns rival) =
      afterAttempt goal propose cell (rival.getD cell) (propose s cell).2 (propose s cell).1 := by
  have hturns : (alone ⟨goal, propose, none⟩ cell s .ready 0 []).run (attemptTurns rival) =
      ((alone ⟨goal, propose, none⟩ (rival.getD cell) s (.proposing cell) 0 []).step
        (.caller 0)).step (.caller 0) := by
    have hfirst : (alone ⟨goal, propose, none⟩ cell s .ready 0 []).run (attemptTurns rival) =
        ((alone ⟨goal, propose, none⟩ cell s .ready 0 []).step (.caller 0)).run
          ((rival.map .rival).toList ++ [.caller 0, .caller 0]) := rfl
    rw [hfirst, step_reads hgoal, run_append, run_stores]
    rfl
  obtain ⟨made, s', hp⟩ : ∃ made s', propose s cell = (made, s') := ⟨_, _, rfl⟩
  rw [hturns, hp]
  cases made with
  | error p =>
    have hpanics : (alone ⟨goal, propose, none⟩ (rival.getD cell) s (.proposing cell) 0 []).step
        (.caller 0) = concluded (rival.getD cell) s' [] (.error p) :=
      (step_proposing_error hp : Loop.shortcut.step _ _ = _)
    rw [hpanics]
    rfl
  | ok w => rw [step_proposes hgoal hp, step_exchanges, afterAttempt]

/-- The function runs once on an attempt, on the value that was read. -/
theorem proposals_attempt (hgoal : goal.Replaces) (rival : Option V) :
    (alone ⟨goal, propose, none⟩ cell s .ready 0 []).proposals 0 (attemptTurns rival) =
      [⟨cell, (propose s cell).1⟩] := by
  -- After the function has run, the call is at its exchange, or at its end.
  have hrest (v : V) : (alone ⟨goal, propose, none⟩ v s (.proposing cell) 0 []).proposals 0
      [.caller 0, .caller 0] = [⟨cell, (propose s cell).1⟩] := by
    obtain ⟨made, s', hp⟩ : ∃ made s', propose s cell = (made, s') := ⟨_, _, rfl⟩
    have hlast : ((alone ⟨goal, propose, none⟩ v s (.proposing cell) 0 []).step
        (.caller 0)).proposalOn 0 (.caller 0) = none := by
      cases made with
      | error p =>
        have hpanics : (alone ⟨goal, propose, none⟩ v s (.proposing cell) 0 []).step (.caller 0) =
            concluded v s' [] (.error p) :=
          (step_proposing_error hp : Loop.shortcut.step _ _ = _)
        rw [hpanics]
        rfl
      | ok w =>
        rw [step_proposes hgoal hp]
        rfl
    rw [proposals, proposals, hlast]
    rfl
  have hfirst : (alone ⟨goal, propose, none⟩ cell s .ready 0 []).proposals 0 (attemptTurns rival) =
      ((alone ⟨goal, propose, none⟩ cell s .ready 0 []).step (.caller 0)).proposals 0
        ((rival.map .rival).toList ++ [.caller 0, .caller 0]) := rfl
  rw [hfirst, step_reads hgoal, proposals_append, run_stores, hrest]
  cases rival <;> rfl

end Attempt

/-! ## Attempts along a script -/

section Attempts

variable [DecidableEq V] {goal : Goal V} {propose : σ → V → Except Panic V × σ} {first : V}
  {state : σ} {script : List (Option V)} {n : Nat}

/-- The function gives a candidate on every attempt before some one. -/
def Reaches (propose : σ → V → Except Panic V × σ) (first : V) (state : σ)
    (script : List (Option V)) (m : Nat) : Prop :=
  ∀ k < m, ∃ w, madeOn propose first state script k = .ok w

omit [DecidableEq V] in
/-- The function gives a candidate on all of some attempts, or panics on the first one of them on
which it does not. -/
theorem reaches_or_panics (propose : σ → V → Except Panic V × σ) (first : V) (state : σ)
    (script : List (Option V)) (m : Nat) :
    Reaches propose first state script m ∨
      ∃ k < m, Reaches propose first state script k ∧
        ∃ p, madeOn propose first state script k = .error p := by
  induction m with
  | zero => exact Or.inl fun k hk => absurd hk (Nat.not_lt_zero k)
  | succ m ih =>
    rcases ih with hreaches | ⟨k, hk, hpanics⟩
    · cases hmade : madeOn propose first state script m with
      | error p => exact Or.inr ⟨m, Nat.lt_succ_self m, hreaches, p, hmade⟩
      | ok w =>
        refine Or.inl fun k hk => ?_
        rcases Nat.lt_succ_iff_lt_or_eq.1 hk with hk | rfl
        · exact hreaches k hk
        · exact ⟨w, hmade⟩
    · exact Or.inr ⟨k, Nat.lt_succ_of_lt hk, hpanics⟩

/-- A call that is about to make an attempt goes on as `run_attempt` says. -/
theorem run_next (hgoal : goal.Replaces) {m : Nat}
    (hrun : (start first state [[⟨goal, propose, none⟩]]).run (attemptsTurns script m) =
      alone ⟨goal, propose, none⟩ (readOn first script m) (stateOn propose first state script m)
        .ready 0 []) :
    (start first state [[⟨goal, propose, none⟩]]).run (attemptsTurns script (m + 1)) =
        afterAttempt goal propose (readOn first script m) (readOn first script (m + 1))
          (stateOn propose first state script (m + 1)) (madeOn propose first state script m) ∧
      (start first state [[⟨goal, propose, none⟩]]).proposals 0 (attemptsTurns script (m + 1)) =
        (start first state [[⟨goal, propose, none⟩]]).proposals 0 (attemptsTurns script m) ++
          [⟨readOn first script m, madeOn propose first state script m⟩] := by
  rw [attemptsTurns_succ, run_append, proposals_append, hrun, proposals_attempt hgoal]
  exact ⟨run_attempt hgoal _, rfl⟩

/-- As long as all attempts are spoilt, a call has read the values of the script. -/
theorem run_attempts (hgoal : goal.Replaces) {m : Nat}
    (hdisturbed : ∀ k < m, ∃ v, storedOn script k = some v ∧ v ≠ readOn first script k)
    (hreaches : Reaches propose first state script m) :
    (start first state [[⟨goal, propose, none⟩]]).run (attemptsTurns script m) =
        alone ⟨goal, propose, none⟩ (readOn first script m) (stateOn propose first state script m)
          .ready 0 [] ∧
      (start first state [[⟨goal, propose, none⟩]]).proposals 0 (attemptsTurns script m) =
        (List.range m).map fun k =>
          ⟨readOn first script k, madeOn propose first state script k⟩ := by
  induction m with
  | zero => exact ⟨rfl, rfl⟩
  | succ m ih =>
    obtain ⟨hrun, hproposals⟩ := ih (fun k hk => hdisturbed k (Nat.lt_succ_of_lt hk))
      fun k hk => hreaches k (Nat.lt_succ_of_lt hk)
    obtain ⟨v, hv, hne⟩ := hdisturbed m (Nat.lt_succ_self m)
    obtain ⟨w, hw⟩ := hreaches m (Nat.lt_succ_self m)
    obtain ⟨hnext, hmore⟩ := run_next hgoal hrun
    refine ⟨?_, ?_⟩
    · have hread : readOn first script (m + 1) = v := by rw [readOn, hv]; rfl
      rw [hnext, hw]
      exact if_neg (hread ▸ hne)
    · rw [hmore, hproposals, List.range_succ, List.map_append]
      rfl

omit [DecidableEq V] in
/-- Nobody but the script changes the cell while all attempts are spoilt. -/
theorem held_attempts (first : V) (script : List (Option V)) (m : Nat) :
    held first (stores (attemptsTurns script m)) = readOn first script m := by
  induction m with
  | zero => rfl
  | succ m ih =>
    have hstores : stores (attemptTurns (storedOn script m)) = (storedOn script m).toList := by
      cases storedOn script m <;> rfl
    rw [attemptsTurns_succ, stores, List.filterMap_append, ← stores, ← stores, hstores, readOn,
      ← ih]
    cases storedOn script m <;> simp [held]

/-- What a call does when rivals follow a script whose first undisturbed attempt is given. -/
structure Scripted (goal : Goal V) (propose : σ → V → Except Panic V × σ) (first : V) (state : σ)
    (script : List (Option V)) (n : Nat) : Prop where
  /-- Its function is given the first value of the cell, and then the values of the script. -/
  given : readOn first script 0 = first ∧
    ∀ k < n, storedOn script k = some (readOn first script (k + 1))
  /-- It makes its attempts in turn, on those values. -/
  attempts : ∀ m ≤ n, Reaches propose first state script m →
    (start first state [[⟨goal, propose, none⟩]]).proposals 0 (attemptsTurns script (m + 1)) =
      (List.range (m + 1)).map fun k =>
        ⟨readOn first script k, madeOn propose first state script k⟩
  /-- It does not end before the undisturbed attempt, unless the function panics. -/
  goesOn : ∀ m < n, Reaches propose first state script (m + 1) →
    ((start first state [[⟨goal, propose, none⟩]]).run (attemptsTurns script (m + 1))).Unanswered
  /-- The candidate of that attempt is what the cell holds in the end. -/
  ends : Reaches propose first state script (n + 1) →
    ∃ w, madeOn propose first state script n = .ok w ∧
      let r := (start first state [[⟨goal, propose, none⟩]]).run (attemptsTurns script (n + 1))
      r.cell = w ∧ (goal = .update → r.Answered (.ok w)) ∧
        (goal = .getAndUpdate → r.Answered (.ok (readOn first script n)))
  /-- A panic of the function ends it on that attempt, and the cell is left to rivals. -/
  panics : ∀ m ≤ n, Reaches propose first state script m →
    ∀ p, madeOn propose first state script m = .error p →
      let r := (start first state [[⟨goal, propose, none⟩]]).run (attemptsTurns script (m + 1))
      r.Answered (.error p) ∧ r.cell = held first (stores (attemptsTurns script (m + 1)))
  returns : ∃ m ≤ n, ∃ o, ((start first state [[⟨goal, propose, none⟩]]).run
    (attemptsTurns script (m + 1))).Answered o

theorem FirstUndisturbed.scripted (hgoal : goal.Replaces)
    (hn : FirstUndisturbed first script n) : Scripted goal propose first state script n := by
  have hat {m : Nat} (hm : m ≤ n) (hreaches : Reaches propose first state script m) :=
    run_attempts hgoal (fun k hk => hn.disturbed k (Nat.lt_of_lt_of_le hk hm)) hreaches
  have hspoilt {m : Nat} (hm : m < n) :
      storedOn script m = some (readOn first script (m + 1)) ∧
        readOn first script (m + 1) ≠ readOn first script m := by
    obtain ⟨v, hv, hne⟩ := hn.disturbed m hm
    have hread : readOn first script (m + 1) = v := by rw [readOn, hv]; rfl
    exact hread ▸ ⟨hv, hne⟩
  have hlast : readOn first script (n + 1) = readOn first script n := by
    rcases hn.undisturbed with hnone | hsame
    · rw [readOn, hnone]
      rfl
    · rw [readOn, hsame]
      rfl
  have hpanics {m : Nat} (hm : m ≤ n) (hreaches : Reaches propose first state script m)
      {p : Panic} (hp : madeOn propose first state script m = .error p) :
      (start first state [[⟨goal, propose, none⟩]]).run (attemptsTurns script (m + 1)) =
        concluded (readOn first script (m + 1)) (stateOn propose first state script (m + 1)) []
          (.error p) := by
    rw [(run_next hgoal (hat hm hreaches).1).1, hp]
    rfl
  have hends {w : V} (hreaches : Reaches propose first state script n)
      (hw : madeOn propose first state script n = .ok w) :
      (start first state [[⟨goal, propose, none⟩]]).run (attemptsTurns script (n + 1)) =
        concluded w (stateOn propose first state script (n + 1))
          [⟨0, readOn first script n, w⟩] (.ok (goal.result (readOn first script n) w)) := by
    rw [(run_next hgoal (hat (Nat.le_refl n) hreaches).1).1, hw]
    exact if_pos hlast
  refine ⟨⟨rfl, fun k hk => (hspoilt hk).1⟩, fun m hm hreaches => ?_, fun m hm hreaches => ?_,
    fun hreaches => ?_, fun m hm hreaches p hp => ?_, ?_⟩
  · obtain ⟨hrun, hproposals⟩ := hat hm hreaches
    rw [(run_next hgoal hrun).2, hproposals, List.range_succ, List.map_append]
    rfl
  · rw [(hat hm hreaches).1]
    rfl
  · obtain ⟨w, hw⟩ := hreaches n (Nat.lt_succ_self n)
    have hrun := hends (fun k hk => hreaches k (Nat.lt_succ_of_lt hk)) hw
    refine ⟨w, hw, ?_⟩
    simp only [hrun]
    refine ⟨rfl, ?_, ?_⟩ <;>
    · rintro rfl
      rfl
  · rw [hpanics hm hreaches hp, held_attempts]
    exact ⟨rfl, rfl⟩
  · rcases reaches_or_panics propose first state script (n + 1) with
      hall | ⟨m, hm, hreaches, p, hp⟩
    · obtain ⟨w, hw⟩ := hall n (Nat.lt_succ_self n)
      refine ⟨n, Nat.le_refl n, .ok (goal.result (readOn first script n) w), ?_⟩
      rw [hends (fun k hk => hall k (Nat.lt_succ_of_lt hk)) hw]
      rfl
    · refine ⟨m, Nat.le_of_lt_succ hm, .error p, ?_⟩
      rw [hpanics (Nat.le_of_lt_succ hm) hreaches hp]
      rfl

/-- The last attempt of a call is the first undisturbed one, or the first one on which its
function panics. -/
theorem run_scripted (goal : Goal V) (hgoal : goal.Replaces)
    (propose : σ → V → Except Panic V × σ) (first : V) (state : σ) (script : List (Option V)) :
    ∃ n, FirstUndisturbed first script n ∧ Scripted goal propose first state script n := by
  obtain ⟨n, hn⟩ := exists_firstUndisturbed first script
  exact ⟨n, hn, hn.scripted hgoal⟩

end Attempts

/-- Rivals store two other words and then the very one that was read; new references, and the
absent one again; and the function panics on a word that rivals have stored. -/
theorem run_scripted_examples :
    let triple : Nat → UInt8 → Except Panic UInt8 × Nat := fun n v => (.ok (v * 3), n + 1)
    let words : List (Option UInt8) := [some 4, some 9, some 9, some 2]
    let word := (start 1 0 [[⟨.getAndUpdate, triple, none⟩]]).run (attemptsTurns words 3)
    let new : Nat → Option Address → Except Panic (Option Address) × Nat :=
      fun n _ => (.ok (some ⟨n⟩), n + 1)
    let refs : List (Option (Option Address)) := [some (some ⟨0⟩), some none]
    let ref := (start none 7 [[⟨.update, new, none⟩]]).run (attemptsTurns refs 3)
    let fails : Nat → UInt8 → Except Panic UInt8 × Nat := fun n v =>
      (if v = 4 then .error ⟨"four"⟩ else .ok v, n + 1)
    let failed := (start 1 0 [[⟨.update, fails, none⟩]]).run (attemptsTurns words 2)
    (Goal.Replaces (.getAndUpdate : Goal UInt8) ∧
      (∃ n, FirstUndisturbed 1 words n ∧ Scripted .getAndUpdate triple 1 0 words n) ∧
      word.Answered (.ok 9) ∧ word.cell = 27) ∧
    (Goal.Replaces (.update : Goal (Option Address)) ∧
      (∃ n, FirstUndisturbed none refs n ∧ Scripted .update new none 7 refs n) ∧
      ref.Answered (.ok (some ⟨9⟩)) ∧ ref.cell = some ⟨9⟩) ∧
    (Goal.Replaces (.update : Goal UInt8) ∧
      (∃ n, FirstUndisturbed 1 words n ∧ Scripted .update fails 1 0 words n) ∧
      failed.Answered (.error ⟨"four"⟩) ∧ failed.cell = 9) :=
  ⟨⟨trivial, run_scripted .getAndUpdate trivial _ _ _ _, rfl, rfl⟩,
    ⟨trivial, run_scripted .update trivial _ _ _ _, rfl, rfl⟩,
    ⟨trivial, run_scripted .update trivial _ _ _ _, rfl, rfl⟩⟩

end SharedCells.Cas.Race
