import Mathlib.Data.List.Induction
import SharedCells.Proofs.Cas.Evidence
import SharedCells.Proofs.Turns

/-!
# One winner

Callers that each want to put a value in while a cell holds an expected one race for that cell.
One of them gets its candidate in, and the others find it there, provided that no candidate is
itself the expected value: a call with such a candidate puts nothing in and gives that value back.

* `candidates` are the values that the functions supply in the course of a schedule.
* `step_bids` lists what one step may do; `Contest.bids` says what every one of them keeps.
* `Open` is a race that nobody has won yet, and `Won` one that was won by a given exchange.
* `run_one_winner` is the result, for every schedule.
-/

namespace SharedCells.Cas.Race

variable {σ V : Type}

/-! ## Candidates -/

/-- The candidate that the next step of a caller computes, if it computes one. -/
def candidate? (r : Race σ V) (i : Nat) : Option V :=
  match r.callers[i]? with
  | some ⟨.proposing v, _, _, call :: _, _⟩ => (call.propose r.state v).1.toOption
  | _ => none

/-- The candidates computed in the course of a schedule. -/
def candidates [DecidableEq V] (r : Race σ V) : List Nat → List V
  | [] => []
  | i :: schedule => (r.candidate? i).toList ++ (r.step (.caller i)).candidates schedule

theorem candidates_concat [DecidableEq V] (r : Race σ V) (schedule : List Nat) (i : Nat) :
    r.candidates (schedule ++ [i]) =
      r.candidates schedule ++ ((r.run (schedule.map .caller)).candidate? i).toList := by
  induction schedule generalizing r with
  | nil => exact List.append_nil _
  | cons j schedule ih =>
    rw [List.cons_append, candidates, ih, ← List.append_assoc]
    rfl

theorem run_concat [DecidableEq V] (r : Race σ V) (schedule : List Nat) (i : Nat) :
    r.run ((schedule ++ [i]).map .caller) = (r.run (schedule.map .caller)).step (.caller i) := by
  rw [List.map_append, run, List.foldl_append]
  rfl

/-! ## Steps -/

/-- What one step of a caller may do in a race for a cell that held the expected value. -/
inductive Bids (expected : V) (r : Race σ V) (i : Nat) : Race σ V → Prop
  | stays : Bids expected r i r
  /-- It has seen the expected value, or has lost an exchange and pauses or starts over. -/
  | goes {c : Caller σ V} {f : Caller σ V → Caller σ V} : r.callers[i]? = some c →
    (f c).calls = c.calls → (f c).answers = c.answers →
      (f c).phase = .proposing expected ∨ (f c).phase = .pausing ∨ (f c).phase = .ready →
        Bids expected r i { r with callers := r.callers.modify i f }
  | supplies {c : Caller σ V} {call : Call σ V} {calls : List (Call σ V)} {w : V} {s : σ} :
    r.callers[i]? = some c → c.calls = call :: calls →
      call.propose r.state expected = (.ok w, s) → w ≠ expected →
        Bids expected r i (goTo { r with state := s } i (.exchanging expected w))
  | panics {c : Caller σ V} {call : Call σ V} {calls : List (Call σ V)} {p : Panic} {s : σ} :
    r.callers[i]? = some c → c.calls = call :: calls →
      call.propose r.state expected = (.error p, s) →
        Bids expected r i (finish { r with state := s } i (.error p))
  /-- Its candidate goes in. -/
  | wins {c : Caller σ V} {call : Call σ V} {calls : List (Call σ V)} {w : V} :
    r.callers[i]? = some c → c.calls = call :: calls → c.phase = .exchanging expected w →
      r.cell = expected →
        Bids expected r i
          (finish { r with cell := w, log := r.log ++ [⟨i, expected, w⟩] } i (.ok w))
  /-- It finds another value in the cell. -/
  | finds {c : Caller σ V} {call : Call σ V} {calls : List (Call σ V)} :
    r.callers[i]? = some c → c.calls = call :: calls → r.cell ≠ expected →
      Bids expected r i (r.finish i (.ok r.cell))

/-- A caller has seen nothing but the expected value, and its candidate was supplied by the
function of its call. -/
def Bidding (calls : List (Call σ V)) (expected : V) (first s : σ) (c : Caller σ V) : Prop :=
  match c.phase with
  | .proposing v => v = expected
  | .exchanging v w =>
    v = expected ∧ w ≠ expected ∧ ∀ call ∈ c.calls.head?, call.Made calls first s expected (.ok w)
  | .ready | .pausing => True

/-- What holds throughout a race between callers with given calls. -/
structure Contest (expected : V) (state : σ) (given : List (List (Call σ V))) (r : Race σ V) :
    Prop where
  size : r.callers.length = given.length
  later : Later given.flatten state r.state
  /-- Each caller makes its calls in turn. -/
  turns : ∀ (i : Nat) (c : Caller σ V), r.callers[i]? = some c →
    ∃ calls, given[i]? = some calls ∧ c.calls = calls.drop c.answers.length
  bidding : ∀ c ∈ r.callers, Bidding given.flatten expected state r.state c

theorem contest_start (expected : V) (state : σ) (given : List (List (Call σ V))) :
    Contest expected state given (start expected state given) where
  size := List.length_map _
  later := .refl
  turns i c hc := by
    rw [start, List.getElem?_map] at hc
    obtain ⟨calls, hcalls, rfl⟩ := Option.map_eq_some_iff.1 hc
    exact ⟨calls, hcalls, rfl⟩
  bidding c hc := by
    obtain ⟨calls, -, rfl⟩ := List.mem_map.1 hc
    trivial

section Step

variable {expected : V} {state : σ} {given : List (List (Call σ V))} {r r' : Race σ V} {i : Nat}
  {c : Caller σ V} {x : Exchange V}

theorem Contest.mem_given (h : Contest expected state given r) (hc : r.callers[i]? = some c)
    {call : Call σ V} (hcall : call ∈ c.calls) : call ∈ given.flatten := by
  obtain ⟨calls, hcalls, hdrop⟩ := h.turns i c hc
  rw [hdrop] at hcall
  exact List.mem_flatten.2 ⟨calls, List.mem_of_getElem? hcalls, List.mem_of_mem_drop hcall⟩

theorem Contest.later_of_propose (h : Contest expected state given r) {call : Call σ V}
    {rest : List (Call σ V)} {o : Except Panic V} {s : σ} (hc : r.callers[i]? = some c)
    (hcalls : c.calls = call :: rest) (hp : call.propose r.state expected = (o, s)) :
    Later given.flatten r.state s := by
  have hmem : call ∈ given.flatten := h.mem_given hc (hcalls ▸ List.mem_cons_self)
  exact .single ⟨call, hmem, expected, by rw [hp]⟩

theorem step_bids [DecidableEq V] (h : Contest expected state given r)
    (hgoals : ∀ call ∈ given.flatten, call.goal = .getOrSetIf expected)
    (hfresh : r.candidate? i ≠ some expected) : Bids expected r i (r.step (.caller i)) := by
  rw [step]
  split
  · rename_i phase lost pauses call calls answers hc
    have hgoal := hgoals call (h.mem_given hc List.mem_cons_self)
    have hbidding := h.bidding _ (List.mem_of_getElem? hc)
    cases phase with
    | ready =>
      rw [advance, hgoal, Goal.seen]
      split
      · rename_i hseen
        exact hseen ▸ .goes hc rfl rfl (Or.inl rfl)
      · rename_i hother
        exact .finds hc rfl hother
    | proposing v =>
      obtain rfl : v = expected := hbidding
      rw [advance]
      split
      · rename_i p s hp
        exact .panics hc rfl hp
      · rename_i w s hp
        have hw : w ≠ v := by
          rintro rfl
          refine hfresh ?_
          simp only [candidate?, hc, hp]
          rfl
        rw [hgoal, Goal.proposed, if_neg hw]
        exact .supplies hc rfl hp hw
    | exchanging v w =>
      obtain ⟨rfl, -, -⟩ := hbidding
      by_cases hsame : r.cell = v
      · have hexchanged : call.goal.exchanged r.cell v w call.backoff.isSome = (.answer w, w) := by
          simp [hgoal, Goal.exchanged, Goal.result, compareAndSet, hsame]
        rw [advance, hexchanged]
        exact .wins hc rfl rfl hsame
      · have hexchanged : call.goal.exchanged r.cell v w call.backoff.isSome =
            (.go (if call.backoff.isSome then .pausing else .ready), r.cell) := by
          simp [Goal.exchanged, compareAndSet, hsame]
        rw [advance, hexchanged]
        refine .goes hc rfl rfl (Or.inr ?_)
        dsimp only
        split
        · exact Or.inl rfl
        · exact Or.inr rfl
    | pausing => exact .goes hc rfl rfl (Or.inr (Or.inr rfl))
  · exact .stays

/-! ## What every step keeps -/

theorem made_of_later {calls : List (Call σ V)} {first s s' : σ} {call : Call σ V} {v : V}
    {o : Except Panic V} (h : call.Made calls first s v o) (hs : Later calls s s') :
    call.Made calls first s' v o := by
  obtain ⟨hcall, s₀, hs₀, ho, hlater⟩ := h
  exact ⟨hcall, s₀, hs₀, ho, hlater.trans hs⟩

theorem Bidding.later {calls : List (Call σ V)} {first s s' : σ}
    (h : Bidding calls expected first s c) (hs : Later calls s s') :
    Bidding calls expected first s' c := by
  unfold Bidding at h ⊢
  split
  · rename_i hphase
    simpa only [hphase] using h
  · rename_i hphase
    simp only [hphase] at h
    exact ⟨h.1, h.2.1, fun call hcall => made_of_later (h.2.2 call hcall) hs⟩
  · trivial
  · trivial

theorem Contest.modify (h : Contest expected state given r) {f : Caller σ V → Caller σ V}
    (hc : r.callers[i]? = some c) (hcallers : r'.callers = r.callers.modify i f)
    (hlater : Later given.flatten r.state r'.state)
    (hturn : ∀ calls : List (Call σ V), c.calls = calls.drop c.answers.length →
      (f c).calls = calls.drop (f c).answers.length)
    (hbidding : Bidding given.flatten expected state r'.state (f c)) :
    Contest expected state given r' := by
  refine ⟨by rw [hcallers, List.length_modify, h.size], h.later.trans hlater, fun j d hd => ?_,
    fun d hd => ?_⟩
  · rw [hcallers, List.getElem?_modify] at hd
    by_cases hij : i = j
    · subst hij
      obtain ⟨calls, hcalls, hdrop⟩ := h.turns i c hc
      obtain rfl : f c = d := by simpa [hc] using hd
      exact ⟨calls, hcalls, hturn calls hdrop⟩
    · exact h.turns j d (by simpa [hij] using hd)
  · rw [hcallers] at hd
    rcases mem_modify hd with hd | ⟨c', hc', rfl⟩
    · exact (h.bidding d hd).later hlater
    · obtain rfl : c = c' := Option.some_inj.1 (hc.symm.trans hc')
      exact hbidding

theorem Contest.ends (h : Contest expected state given r) {o : Except Panic V}
    (hc : r.callers[i]? = some c) (hcallers : r'.callers = (r.finish i o).callers)
    (hlater : Later given.flatten r.state r'.state) : Contest expected state given r' := by
  refine h.modify hc hcallers hlater (fun calls hturn => ?_) trivial
  rw [idle, List.length_append, List.length_singleton, ← List.drop_drop, ← hturn, List.drop_one]

theorem Contest.bids (h : Contest expected state given r) (hbids : Bids expected r i r') :
    Contest expected state given r' := by
  cases hbids with
  | stays => exact h
  | goes hc hcalls hanswers hphase =>
    refine h.modify hc rfl .refl (fun calls hturn => ?_) ?_
    · rw [hcalls, hanswers, hturn]
    · unfold Bidding
      rcases hphase with hphase | hphase | hphase <;> rw [hphase]
      all_goals trivial
  | @supplies c call rest w s hc hcalls hp hw =>
    refine h.modify hc rfl (h.later_of_propose hc hcalls hp) (fun _ hturn => hturn)
      ⟨rfl, hw, fun call' hcall' => ?_⟩
    obtain rfl : call = call' := by simpa [hcalls] using hcall'
    have hmem : call ∈ given.flatten := h.mem_given hc (hcalls ▸ List.mem_cons_self)
    exact ⟨hmem, r.state, h.later, by rw [hp], by rw [hp]; exact .refl⟩
  | panics hc hcalls hp => exact h.ends hc rfl (h.later_of_propose hc hcalls hp)
  | wins hc => exact h.ends hc rfl .refl
  | finds hc => exact h.ends hc rfl .refl

/-! ## The race before and after it is won -/

/-- Nobody has put anything in yet, and no call has returned. -/
structure Open (expected : V) (r : Race σ V) : Prop where
  cell : r.cell = expected
  log : r.log = []
  answers : ∀ c ∈ r.callers, ∀ v, .ok v ∉ c.answers

/-- One exchange has been made: the cell holds what it put in, and every call that has returned
gave that back. -/
structure Won (expected : V) (state : σ) (given : List (List (Call σ V))) (x : Exchange V)
    (r : Race σ V) : Prop where
  before : x.before = expected
  after : x.after ≠ expected
  cell : r.cell = x.after
  log : r.log = [x]
  answers : ∀ c ∈ r.callers, ∀ v, .ok v ∈ c.answers → v = x.after
  /-- It is the exchange of a call that has returned, and whose function supplied the value. -/
  winner : ∃ (c : Caller σ V) (calls : List (Call σ V)) (call : Call σ V) (n : Nat),
    r.callers[x.caller]? = some c ∧ given[x.caller]? = some calls ∧ calls[n]? = some call ∧
      c.answers[n]? = some (.ok x.after) ∧
        call.Made given.flatten state r.state expected (.ok x.after)

theorem open_start (expected : V) (state : σ) (given : List (List (Call σ V))) :
    Open expected (start expected state given) := by
  refine ⟨rfl, rfl, fun c hc v hv => ?_⟩
  obtain ⟨calls, -, rfl⟩ := List.mem_map.1 hc
  cases hv

theorem Open.modify (h : Open expected r) {f : Caller σ V → Caller σ V}
    {more : List (Except Panic V)} (hc : r.callers[i]? = some c)
    (hanswers : (f c).answers = c.answers ++ more) (hmore : ∀ v, .ok v ∉ more)
    (hcell : r'.cell = r.cell) (hlog : r'.log = r.log)
    (hcallers : r'.callers = r.callers.modify i f) : Open expected r' := by
  refine ⟨hcell.trans h.cell, hlog.trans h.log, fun d hd v hv => ?_⟩
  rw [hcallers] at hd
  rcases mem_modify hd with hd | ⟨c', hc', rfl⟩
  · exact h.answers d hd v hv
  · obtain rfl : c = c' := Option.some_inj.1 (hc.symm.trans hc')
    rw [hanswers] at hv
    rcases List.mem_append.1 hv with hv | hv
    · exact h.answers c (List.mem_of_getElem? hc) v hv
    · exact hmore v hv

theorem Won.modify (h : Won expected state given x r) {f : Caller σ V → Caller σ V}
    {more : List (Except Panic V)} (hc : r.callers[i]? = some c)
    (hanswers : (f c).answers = c.answers ++ more) (hmore : ∀ v, .ok v ∈ more → v = x.after)
    (hcell : r'.cell = r.cell) (hlog : r'.log = r.log)
    (hlater : Later given.flatten r.state r'.state)
    (hcallers : r'.callers = r.callers.modify i f) : Won expected state given x r' := by
  refine ⟨h.before, h.after, hcell.trans h.cell, hlog.trans h.log, fun d hd v hv => ?_, ?_⟩
  · rw [hcallers] at hd
    rcases mem_modify hd with hd | ⟨c', hc', rfl⟩
    · exact h.answers d hd v hv
    · obtain rfl : c = c' := Option.some_inj.1 (hc.symm.trans hc')
      rw [hanswers] at hv
      rcases List.mem_append.1 hv with hv | hv
      · exact h.answers c (List.mem_of_getElem? hc) v hv
      · exact hmore v hv
  · obtain ⟨d, calls, call, n, hd, hcalls, hcall, hn, hmade⟩ := h.winner
    rw [hcallers]
    by_cases hij : i = x.caller
    · subst hij
      obtain rfl : c = d := Option.some_inj.1 (hc.symm.trans hd)
      refine ⟨f c, calls, call, n, by rw [List.getElem?_modify_eq, hc]; rfl, hcalls, hcall, ?_,
        made_of_later hmade hlater⟩
      obtain ⟨hlt, -⟩ := List.getElem?_eq_some_iff.1 hn
      rw [hanswers, List.getElem?_append_left hlt, hn]
    · exact ⟨d, calls, call, n, by rw [List.getElem?_modify_ne _ _ hij, hd], hcalls, hcall, hn,
        made_of_later hmade hlater⟩

/-- A step leaves a race open, or wins it for the caller that makes it. -/
theorem Open.bids (h : Open expected r) (hcontest : Contest expected state given r)
    (hbids : Bids expected r i r') :
    Open expected r' ∨ ∃ x : Exchange V, x.caller = i ∧ Won expected state given x r' := by
  cases hbids with
  | stays => exact Or.inl h
  | goes hc _ hanswers =>
    have hnone : ∀ v, .ok v ∉ ([] : List (Except Panic V)) := fun _ => List.not_mem_nil
    refine Or.inl (h.modify hc ?_ hnone rfl rfl rfl)
    rw [hanswers, List.append_nil]
  | supplies hc =>
    have hnone : ∀ v, .ok v ∉ ([] : List (Except Panic V)) := fun _ => List.not_mem_nil
    exact Or.inl (h.modify hc (List.append_nil _).symm hnone rfl rfl rfl)
  | panics hc => exact Or.inl (h.modify hc rfl (by simp) rfl rfl rfl)
  | finds _ _ hother => exact absurd h.cell hother
  | @wins c call rest w hc hcalls hphase _ =>
    have hbidding := hcontest.bidding c (List.mem_of_getElem? hc)
    simp only [Bidding, hphase] at hbidding
    obtain ⟨-, hw, hmade⟩ := hbidding
    refine Or.inr ⟨⟨i, expected, w⟩, rfl, rfl, hw, rfl, ?_, fun d hd v hv => ?_, ?_⟩
    · exact congrArg (· ++ [_]) h.log
    · rcases mem_modify hd with hd | ⟨c', hc', rfl⟩
      · exact absurd hv (h.answers d hd v)
      · rcases List.mem_append.1 hv with hv | hv
        · exact absurd hv (h.answers c' (List.mem_of_getElem? hc') v)
        · cases List.mem_singleton.1 hv
          rfl
    · obtain ⟨calls, hgiven, hdrop⟩ := hcontest.turns i c hc
      refine ⟨_, calls, call, c.answers.length, by rw [finish, List.getElem?_modify_eq, hc]; rfl,
        hgiven, ?_, ?_, hmade call (hcalls ▸ rfl)⟩
      · rw [← Nat.add_zero c.answers.length, ← List.getElem?_drop, ← hdrop, hcalls]
        rfl
      · exact List.getElem?_concat_length

/-- A race that is won stays so. -/
theorem Won.bids (h : Won expected state given x r) (hcontest : Contest expected state given r)
    (hbids : Bids expected r i r') : Won expected state given x r' := by
  cases hbids with
  | stays => exact h
  | goes hc _ hanswers =>
    have hnone : ∀ v, .ok v ∈ ([] : List (Except Panic V)) → v = x.after := by simp
    refine h.modify hc ?_ hnone rfl rfl .refl rfl
    rw [hanswers, List.append_nil]
  | supplies hc hcalls hp =>
    have hnone : ∀ v, .ok v ∈ ([] : List (Except Panic V)) → v = x.after := by simp
    exact h.modify hc (List.append_nil _).symm hnone rfl rfl
      (hcontest.later_of_propose hc hcalls hp) rfl
  | panics hc hcalls hp =>
    exact h.modify hc rfl (by simp) rfl rfl (hcontest.later_of_propose hc hcalls hp) rfl
  | wins _ _ _ hcell => exact absurd (h.cell.symm.trans hcell) h.after
  | finds hc => exact h.modify hc rfl (by simp [h.cell]) rfl rfl .refl rfl

end Step

/-! ## Runs -/

section Runs

variable [DecidableEq V]

theorem Contest.run {expected : V} {state : σ} {given : List (List (Call σ V))} {r : Race σ V}
    (h : Contest expected state given r)
    (hgoals : ∀ call ∈ given.flatten, call.goal = .getOrSetIf expected) (schedule : List Nat)
    (hfresh : expected ∉ r.candidates schedule) :
    Contest expected state given (r.run (schedule.map .caller)) := by
  induction schedule generalizing r with
  | nil => exact h
  | cons i schedule ih =>
    rw [candidates, List.mem_append, not_or, Option.mem_toList] at hfresh
    exact ih (h.bids (step_bids h hgoals hfresh.1)) hfresh.2

/-- In the course of a schedule the race is open throughout, or a step of one caller wins it and
from then on it stays won by that exchange. -/
def OneWinner (expected : V) (state : σ) (given : List (List (Call σ V))) (schedule : List Nat) :
    Prop :=
  (∀ turns, turns <+: schedule →
    Open expected ((start expected state given).run (turns.map .caller))) ∨
  ∃ (x : Exchange V) (before after : List Nat), schedule = before ++ x.caller :: after ∧
    (∀ turns, turns <+: before →
      Open expected ((start expected state given).run (turns.map .caller))) ∧
    ∀ turns, turns <+: after →
      Won expected state given x
        ((start expected state given).run ((before ++ x.caller :: turns).map .caller))

/-- Callers that race for a cell with the value that they all expect have one winner, however
their steps are interleaved. -/
theorem run_one_winner (expected : V) (state : σ) (given : List (List (Call σ V)))
    (hgoals : ∀ call ∈ given.flatten, call.goal = .getOrSetIf expected) (schedule : List Nat)
    (hfresh : expected ∉ (start expected state given).candidates schedule) :
    OneWinner expected state given schedule := by
  induction schedule using List.reverseRecOn with
  | nil =>
    refine Or.inl fun turns hturns => ?_
    rw [List.prefix_nil.1 hturns]
    exact open_start expected state given
  | append_singleton schedule i ih =>
    rw [candidates_concat, List.mem_append, not_or, Option.mem_toList] at hfresh
    have hcontest := (contest_start expected state given).run hgoals schedule hfresh.1
    have hbids := step_bids hcontest hgoals hfresh.2
    rw [← run_concat] at hbids
    rcases ih hfresh.1 with hopen | ⟨x, before, after, rfl, hopen, hwon⟩
    · rcases (hopen schedule List.prefix_rfl).bids hcontest hbids with hnext | ⟨x, rfl, hnext⟩
      · refine Or.inl fun turns hturns => ?_
        rcases List.prefix_concat_iff.1 hturns with rfl | hturns
        · exact hnext
        · exact hopen turns hturns
      · refine Or.inr ⟨x, schedule, [], rfl, hopen, fun turns hturns => ?_⟩
        rw [List.prefix_nil.1 hturns]
        exact hnext
    · refine Or.inr ⟨x, before, after ++ [i], by simp, hopen, fun turns hturns => ?_⟩
      rcases List.prefix_concat_iff.1 hturns with rfl | hturns
      · have hnext := (hwon after List.prefix_rfl).bids hcontest hbids
        rwa [List.append_assoc] at hnext
      · exact hwon turns hturns

end Runs

/-- Two callers have both seen the expected value, on a cell that compares values, and three on
a cell that compares references, where the function of the third one gives up at first. -/
theorem run_one_winner_examples :
    let offer (v : UInt8) : Call Unit UInt8 := ⟨.getOrSetIf 0, fun s _ => (.ok v, s), none⟩
    let words := [[offer 1, offer 2], [offer 3]]
    let turns := [0, 0, 1, 1, 1, 0, 0, 0]
    let new (n : Nat) : Call (List Nat) (Option Address) :=
      ⟨.getOrSetIf none, fun heap _ => (.ok (some ⟨heap.length⟩), heap ++ [n]), some .standard⟩
    let fails : Call (List Nat) (Option Address) :=
      ⟨.getOrSetIf none, fun heap _ => (.error ⟨"none left"⟩, heap), none⟩
    let refs := [[new 7], [new 8], [fails, new 9]]
    let turns' := [0, 1, 2, 0, 1, 2, 2, 1, 0, 2, 0, 0, 2, 2, 2]
    (OneWinner 0 () words turns ∧
      ((start 0 () words).run (turns.map .caller)).callers.map Caller.answers =
        [[.ok 3, .ok 3], [.ok 3]]) ∧
    (OneWinner none [] refs turns' ∧
      ((start none [] refs).run (turns'.map .caller)).callers.map Caller.answers =
        [[.ok (some ⟨1⟩)], [.ok (some ⟨1⟩)], [.error ⟨"none left"⟩, .ok (some ⟨1⟩)]]) := by
  intro offer words turns new fails refs turns'
  refine ⟨⟨run_one_winner 0 () words ?_ turns (by decide), by decide⟩,
    ⟨run_one_winner none [] refs ?_ turns' (by decide), by decide⟩⟩
  · simp [words, offer]
  · simp [refs, new, fails]

end SharedCells.Cas.Race
