import SharedCells.Proofs.Cas.Evidence
import SharedCells.Proofs.Turns

/-!
# Updates of a cell form a chain

Callers that update one cell exchange its value one after another, whatever the order of their
steps. Each exchange replaces what the one before it has put in, and puts in what the function of
its call makes of that.

* `Ended` is a call that has ended, and `Chain` a list of exchanges that leads from one value to
  another.
* `step_moves` lists what one step may do; `Inv.move` and `Backed.move` say what every move keeps.
* `run_chained` is the result, for every schedule.
-/

namespace SharedCells.Cas

variable {σ V α : Type}

/-! ## Calls -/

/-- The goals of calls that go on until their candidate is in. -/
def Goal.Replaces : Goal V → Prop
  | update | getAndUpdate => True
  | getOrSetIf _ => False

/-- A call that has ended. -/
structure Ended (σ V : Type) where
  caller : Nat
  call : Call σ V
  /-- The value that its function was given last. -/
  before : V
  /-- What its function made of that value. -/
  outcome : Except Panic V

namespace Ended

/-- What the caller got: the value replaced or the value put in, as it asked for. -/
def answer (e : Ended σ V) : Except Panic V :=
  match e.call.goal with
  | .getAndUpdate => e.outcome.map fun _ => e.before
  | _ => e.outcome

/-- Its exchange, unless its function panicked. -/
def exchange? (e : Ended σ V) : Option (Exchange V) :=
  match e.outcome with
  | .ok after => some ⟨e.caller, e.before, after⟩
  | .error _ => none

end Ended

namespace Race

/-! ## Chains -/

/-- Exchanges that lead from one value to another: each replaces what the one before put in. -/
def Chain (first : V) : List (Exchange V) → V → Prop
  | [], last => first = last
  | x :: xs, last => x.before = first ∧ Chain x.after xs last

theorem Chain.append {first last : V} {xs : List (Exchange V)} (h : Chain first xs last)
    (i : Nat) (v : V) : Chain first (xs ++ [⟨i, last, v⟩]) v := by
  induction xs generalizing first with
  | nil =>
    have hsame : first = last := h
    exact ⟨hsame.symm, rfl⟩
  | cons x xs ih =>
    obtain ⟨hbefore, hrest⟩ := h
    exact ⟨hbefore, ih hrest⟩

/-! ## Moves -/

/-- What one step of a caller may do, and the call that it ends. -/
inductive Moves (r : Race σ V) (i : Nat) : Race σ V → Option (Ended σ V) → Prop
  | stays : Moves r i r none
  | reads {c : Caller σ V} : r.callers[i]? = some c → Moves r i (r.goTo i (.proposing r.cell)) none
  /-- Its function makes a candidate of the value read. -/
  | proposes {c : Caller σ V} {call : Call σ V} {calls : List (Call σ V)} {v w : V} {s : σ} :
    r.callers[i]? = some c → c.phase = .proposing v → c.calls = call :: calls →
      call.propose r.state v = (.ok w, s) →
        Moves r i (goTo { r with state := s } i (.exchanging v w)) none
  | panics {c : Caller σ V} {call : Call σ V} {calls : List (Call σ V)} {v : V} {p : Panic}
    {s : σ} {answer : Except Panic V} :
    r.callers[i]? = some c → c.phase = .proposing v → c.calls = call :: calls →
      call.propose r.state v = (.error p, s) → answer = Ended.answer ⟨i, call, v, .error p⟩ →
        Moves r i (finish { r with state := s } i answer) (some ⟨i, call, v, .error p⟩)
  /-- Its candidate goes in. -/
  | exchanges {c : Caller σ V} {call : Call σ V} {calls : List (Call σ V)} {w : V}
    {answer : Except Panic V} : r.callers[i]? = some c → c.phase = .exchanging r.cell w →
      c.calls = call :: calls → answer = Ended.answer ⟨i, call, r.cell, .ok w⟩ →
        Moves r i (finish { r with cell := w, log := r.log ++ [⟨i, r.cell, w⟩] } i answer)
          (some ⟨i, call, r.cell, .ok w⟩)
  /-- It has lost an exchange, and pauses or starts over. -/
  | retries {c : Caller σ V} {f : Caller σ V → Caller σ V} : r.callers[i]? = some c →
    (f c).calls = c.calls → (f c).answers = c.answers →
      (f c).phase = .ready ∨ (f c).phase = .pausing →
        Moves r i { r with callers := r.callers.modify i f } none

theorem step_moves [DecidableEq V] (r : Race σ V) (i : Nat)
    (hgoals : ∀ c ∈ r.callers, ∀ call ∈ c.calls, call.goal.Replaces) :
    ∃ e, Moves r i (r.step (.caller i)) e := by
  rw [step]
  split
  · rename_i phase lost pauses call calls answers hc
    have hgoal := hgoals _ (List.mem_of_getElem? hc) call List.mem_cons_self
    cases phase with
    | ready =>
      refine ⟨none, ?_⟩
      have hseen : call.goal.seen r.cell = .go (.proposing r.cell) := by
        cases hg : call.goal with
        | getOrSetIf expected => rw [hg] at hgoal; cases hgoal
        | _ => rfl
      rw [advance, hseen]
      exact .reads hc
    | proposing v =>
      rw [advance]
      split
      · rename_i p s hp
        refine ⟨_, .panics hc rfl rfl hp ?_⟩
        unfold Ended.answer
        cases call.goal <;> rfl
      · rename_i w s hp
        refine ⟨none, ?_⟩
        have hproposed : call.goal.proposed v w = .go (.exchanging v w) := by
          cases hg : call.goal with
          | getOrSetIf expected => rw [hg] at hgoal; cases hgoal
          | _ => rfl
        rw [hproposed]
        exact .proposes hc rfl rfl hp
    | exchanging v w =>
      by_cases hsame : r.cell = v
      · subst hsame
        refine ⟨some ⟨i, call, r.cell, .ok w⟩, ?_⟩
        have hexchanged : call.goal.exchanged r.cell r.cell w call.backoff.isSome =
            (.answer (call.goal.result r.cell w), w) := by
          simp [Goal.exchanged, compareAndSet]
        have hresult : (.ok (call.goal.result r.cell w) : Except Panic V) =
            Ended.answer ⟨i, call, r.cell, .ok w⟩ := by
          unfold Ended.answer
          cases call.goal <;> rfl
        rw [advance, hexchanged]
        exact .exchanges hc rfl rfl hresult
      · refine ⟨none, ?_⟩
        have hexchanged : call.goal.exchanged r.cell v w call.backoff.isSome =
            (.go (if call.backoff.isSome then .pausing else .ready), r.cell) := by
          simp [Goal.exchanged, compareAndSet, hsame]
        rw [advance, hexchanged]
        refine .retries hc rfl rfl ?_
        dsimp only
        split
        · exact Or.inr rfl
        · exact Or.inl rfl
    | pausing => exact ⟨none, .retries hc rfl rfl (Or.inl rfl)⟩
  · exact ⟨none, .stays⟩

/-! ## What every move keeps -/

/-- The calls of one caller among those that have ended. -/
def endedBy (i : Nat) (ended : List (Ended σ V)) : List (Ended σ V) :=
  ended.filter fun e => e.caller == i

theorem endedBy_append_self (i : Nat) (ended : List (Ended σ V)) {e : Ended σ V}
    (he : e.caller = i) : endedBy i (ended ++ [e]) = endedBy i ended ++ [e] := by
  rw [endedBy, List.filter_append, endedBy, List.filter_singleton, he, beq_self_eq_true, cond_true]

theorem endedBy_append_of_ne {i : Nat} (ended : List (Ended σ V)) {e : Ended σ V}
    (he : e.caller ≠ i) : endedBy i (ended ++ [e]) = endedBy i ended := by
  rw [endedBy, List.filter_append, endedBy, List.filter_singleton, beq_false_of_ne he, cond_false,
    List.append_nil]

/-- What holds in every state of a race between callers with given calls on a cell that held a
first value, when some calls have ended. -/
structure Inv (first : V) (given : List (List (Call σ V))) (ended : List (Ended σ V))
    (r : Race σ V) : Prop where
  chain : Chain first r.log r.cell
  /-- The exchanges are those of the calls that have ended, in their order. -/
  exchanges : r.log = ended.filterMap Ended.exchange?
  size : r.callers.length = given.length
  callers : ∀ e ∈ ended, e.caller < given.length
  /-- Each caller makes its calls in turn. -/
  turns : ∀ i calls, given[i]? = some calls → ∃ c, r.callers[i]? = some c ∧
    (endedBy i ended).map Ended.call ++ c.calls = calls ∧
      c.answers = (endedBy i ended).map Ended.answer
  /-- All calls have ended or are still to be made. -/
  shared : (ended.map Ended.call ++ (r.callers.map Caller.calls).flatten).Perm given.flatten

theorem inv_start (first : V) (state : σ) (given : List (List (Call σ V))) :
    Inv first given [] (start first state given) where
  chain := rfl
  exchanges := rfl
  size := List.length_map _
  callers e he := nomatch he
  turns i calls hi := by
    refine ⟨idle calls, ?_, rfl, rfl⟩
    rw [start, List.getElem?_map, hi]
    rfl
  shared := by
    have hcalls : (given.map idle).map Caller.calls = given := by
      rw [List.map_map]
      exact List.map_id given
    rw [start, hcalls]
    exact .refl _

section Move

variable {first : V} {given : List (List (Call σ V))} {ended : List (Ended σ V)}
  {r r' : Race σ V} {i : Nat} {c : Caller σ V} {e? : Option (Ended σ V)}

theorem calls_finish (answer : Except Panic V) :
    (r.finish i answer).callers.map Caller.calls =
      (r.callers.map Caller.calls).modify i List.tail :=
  map_modify fun _ _ => rfl

theorem Inv.mem_given (h : Inv first given ended r) (hc : r.callers[i]? = some c)
    {call : Call σ V} (hcall : call ∈ c.calls) : call ∈ given.flatten := by
  refine h.shared.subset (List.mem_append_right _ (List.mem_flatten.2 ⟨c.calls, ?_, hcall⟩))
  exact List.mem_map_of_mem (List.mem_of_getElem? hc)

theorem Inv.goesOn (h : Inv first given ended r) {f : Caller σ V → Caller σ V}
    (hc : r.callers[i]? = some c) (hcalls : (f c).calls = c.calls)
    (hanswers : (f c).answers = c.answers) (hcell : r'.cell = r.cell) (hlog : r'.log = r.log)
    (hcallers : r'.callers = r.callers.modify i f) : Inv first given ended r' := by
  refine ⟨by rw [hcell, hlog]; exact h.chain, hlog.trans h.exchanges, ?_, h.callers,
    fun j calls hj => ?_, ?_⟩
  · rw [hcallers, List.length_modify, h.size]
  · obtain ⟨d, hd, hturns, hanswered⟩ := h.turns j calls hj
    rw [hcallers]
    by_cases hij : i = j
    · subst hij
      obtain rfl : c = d := Option.some_inj.1 (hc.symm.trans hd)
      refine ⟨f c, by rw [List.getElem?_modify_eq, hc]; rfl, ?_, hanswers.trans hanswered⟩
      rw [hcalls, hturns]
    · exact ⟨d, by rw [List.getElem?_modify_ne _ _ hij, hd], hturns, hanswered⟩
  · have hsame : ∀ d, r.callers[i]? = some d → (f d).calls = id d.calls := by
      intro d hd
      obtain rfl : c = d := Option.some_inj.1 (hc.symm.trans hd)
      exact hcalls
    rw [hcallers, map_modify hsame, List.modify_id]
    exact h.shared

theorem Inv.ends (h : Inv first given ended r) {e : Ended σ V} {calls : List (Call σ V)}
    (hc : r.callers[e.caller]? = some c) (hcalls : c.calls = e.call :: calls)
    (hchain : Chain first r'.log r'.cell) (hlog : r'.log = r.log ++ e.exchange?.toList)
    (hcallers : r'.callers = (r.finish e.caller e.answer).callers) :
    Inv first given (ended ++ [e]) r' := by
  have hlt : e.caller < given.length := by
    obtain ⟨hlt, -⟩ := List.getElem?_eq_some_iff.1 hc
    rwa [h.size] at hlt
  refine ⟨hchain, ?_, ?_, ?_, fun j calls' hj => ?_, ?_⟩
  · rw [hlog, h.exchanges, List.filterMap_append]
    cases hx : e.exchange? <;> simp [hx]
  · rw [hcallers, finish, List.length_modify, h.size]
  · intro e' he'
    rcases List.mem_append.1 he' with he' | he'
    · exact h.callers e' he'
    · rw [List.mem_singleton.1 he']
      exact hlt
  · obtain ⟨d, hd, hturns, hanswered⟩ := h.turns j calls' hj
    rw [hcallers, finish]
    by_cases hij : e.caller = j
    · subst hij
      obtain rfl : c = d := Option.some_inj.1 (hc.symm.trans hd)
      refine ⟨_, by rw [List.getElem?_modify_eq, hc]; rfl, ?_, ?_⟩
      · rw [endedBy_append_self _ _ rfl, ← hturns, hcalls]
        simp [idle, hcalls]
      · rw [endedBy_append_self _ _ rfl, List.map_append, ← hanswered]
        rfl
    · refine ⟨d, by rw [List.getElem?_modify_ne _ _ hij, hd], ?_, ?_⟩
      · rw [endedBy_append_of_ne _ hij, hturns]
      · rw [endedBy_append_of_ne _ hij, hanswered]
  · have hfront : (r.callers.map Caller.calls)[e.caller]? = some (e.call :: calls) := by
      rw [List.getElem?_map, hc, ← hcalls]
      rfl
    rw [hcallers, calls_finish, List.map_append, List.append_assoc]
    exact ((flatten_modify_tail hfront).symm.append_left _).trans h.shared

theorem Inv.move (h : Inv first given ended r) (hmove : Moves r i r' e?) :
    Inv first given (ended ++ e?.toList) r' := by
  cases hmove with
  | stays => exact (List.append_nil ended).symm ▸ h
  | reads hc =>
    rw [Option.toList_none, List.append_nil]
    exact h.goesOn hc rfl rfl rfl rfl rfl
  | proposes hc =>
    rw [Option.toList_none, List.append_nil]
    exact h.goesOn hc rfl rfl rfl rfl rfl
  | panics hc hphase hcalls hp hanswer =>
    subst hanswer
    exact h.ends hc hcalls h.chain (List.append_nil _).symm rfl
  | exchanges hc hphase hcalls hanswer =>
    subst hanswer
    exact h.ends hc hcalls (h.chain.append _ _) rfl rfl
  | retries hc hcalls hanswers =>
    rw [Option.toList_none, List.append_nil]
    exact h.goesOn hc hcalls hanswers rfl rfl rfl

end Move

/-! ## What is known throughout a race -/

section Backed

variable {calls : List (Call σ V)} {seen : σ → V → Prop}
  {made : σ → Call σ V → V → Except Panic V → Prop} {ended : List (Ended σ V)}
  {r r' : Race σ V} {i : Nat} {c : Caller σ V} {e? : Option (Ended σ V)}

/-- There is evidence for what a caller has read, and for its candidate. -/
def BackedCaller (seen : σ → V → Prop) (made : σ → Call σ V → V → Except Panic V → Prop) (s : σ)
    (c : Caller σ V) : Prop :=
  match c.phase with
  | .proposing v => seen s v
  | .exchanging v w => ∀ call ∈ c.calls.head?, made s call v (.ok w)
  | .ready | .pausing => True

/-- There is evidence for what is in the cell, for what was made by calls that have ended, and for
what callers rely on. -/
structure Backed (seen : σ → V → Prop) (made : σ → Call σ V → V → Except Panic V → Prop)
    (ended : List (Ended σ V)) (r : Race σ V) : Prop where
  cell : seen r.state r.cell
  ended : ∀ e ∈ ended, made r.state e.call e.before e.outcome
  callers : ∀ c ∈ r.callers, BackedCaller seen made r.state c

theorem backed_start {first : V} {state : σ} (h : seen state first)
    (given : List (List (Call σ V))) : Backed seen made [] (start first state given) := by
  refine ⟨h, fun e he => (by cases he), fun c hc => ?_⟩
  obtain ⟨calls, -, rfl⟩ := List.mem_map.1 hc
  trivial

theorem Backed.append (h : Backed seen made ended r) {e : Ended σ V}
    (he : made r.state e.call e.before e.outcome) : Backed seen made (ended ++ [e]) r := by
  refine ⟨h.cell, fun e' he' => ?_, h.callers⟩
  rcases List.mem_append.1 he' with he' | he'
  · exact h.ended e' he'
  · rw [List.mem_singleton.1 he']
    exact he

/-- Evidence for a caller lasts while functions change the state. -/
theorem BackedCaller.propose (h : BackedCaller seen made r.state c)
    (hev : Evidence calls seen made) {call : Call σ V} (hcall : call ∈ calls) {v : V}
    (hv : seen r.state v) : BackedCaller seen made (call.propose r.state v).2 c := by
  unfold BackedCaller at h ⊢
  cases hphase : c.phase <;> rw [hphase] at h
  case proposing u => exact hev.keepsSeen call hcall _ v hv u h
  case exchanging u w =>
    exact fun call' hcall' => hev.keepsMade call hcall _ v hv call' u _ (h call' hcall')
  all_goals trivial

/-- A caller comes to another phase, and perhaps the cell to another value. -/
theorem Backed.goesOn (h : Backed seen made ended r) {v : V} (hv : seen r.state v)
    (hc : r.callers[i]? = some c) {f : Caller σ V → Caller σ V}
    (hf : BackedCaller seen made r.state (f c)) {log : List (Exchange V)} :
    Backed seen made ended { r with cell := v, log, callers := r.callers.modify i f } := by
  refine ⟨hv, h.ended, fun d hd => ?_⟩
  rcases mem_modify hd with hd | ⟨d', hd', rfl⟩
  · exact h.callers d hd
  · obtain rfl : c = d' := Option.some_inj.1 (hc.symm.trans hd')
    exact hf

theorem Backed.propose (h : Backed seen made ended r) (hev : Evidence calls seen made)
    {call : Call σ V} (hcall : call ∈ calls) {v : V} (hv : seen r.state v) :
    Backed seen made ended { r with state := (call.propose r.state v).2 } :=
  ⟨hev.keepsSeen call hcall _ v hv _ h.cell,
    fun e he => hev.keepsMade call hcall _ v hv _ _ _ (h.ended e he),
    fun c hc => (h.callers c hc).propose hev hcall hv⟩

theorem Backed.move (h : Backed seen made ended r) (hev : Evidence calls seen made)
    (hcalls : ∀ c ∈ r.callers, ∀ call ∈ c.calls, call ∈ calls) (hmove : Moves r i r' e?) :
    Backed seen made (ended ++ e?.toList) r' := by
  have hnone : ended ++ (none : Option (Ended σ V)).toList = ended := List.append_nil ended
  cases hmove with
  | stays =>
    rw [hnone]
    exact h
  | reads hc =>
    rw [hnone]
    refine h.goesOn h.cell hc ?_
    exact h.cell
  | @proposes c call _ v w s hc hphase hfront hp =>
    have hv := h.callers c (List.mem_of_getElem? hc)
    rw [BackedCaller, hphase] at hv
    have hcall := hcalls c (List.mem_of_getElem? hc) call (hfront ▸ List.mem_cons_self)
    have hmade := hev.makes call hcall _ v hv
    have hnext := h.propose hev hcall hv
    rw [hp] at hmade hnext
    rw [hnone]
    refine hnext.goesOn hnext.cell hc ?_
    intro call' hcall'
    obtain rfl : call = call' := by simpa [hfront] using hcall'
    exact hmade
  | @panics c call _ v p s _ hc hphase hfront hp hanswer =>
    have hv := h.callers c (List.mem_of_getElem? hc)
    rw [BackedCaller, hphase] at hv
    have hcall := hcalls c (List.mem_of_getElem? hc) call (hfront ▸ List.mem_cons_self)
    have hmade := hev.makes call hcall _ v hv
    have hnext := h.propose hev hcall hv
    rw [hp] at hmade hnext
    refine Backed.append (hnext.goesOn hnext.cell hc ?_) hmade
    trivial
  | @exchanges c call _ w _ hc hphase hfront hanswer =>
    have hmade := h.callers c (List.mem_of_getElem? hc)
    rw [BackedCaller, hphase, hfront] at hmade
    have hw := hev.seen_of_made _ _ _ _ (hmade call rfl)
    refine Backed.append (h.goesOn hw hc ?_) (hmade call rfl)
    trivial
  | @retries c f hc hcalls' hanswers hphase =>
    rw [hnone]
    refine h.goesOn h.cell hc ?_
    unfold BackedCaller
    rcases hphase with hphase | hphase <;> rw [hphase] <;> trivial

end Backed

/-! ## Runs -/

/-- What a race comes to between callers with given calls on a cell, when some calls have ended. -/
structure Chained (first : V) (state : σ) (given : List (List (Call σ V)))
    (ended : List (Ended σ V)) (r : Race σ V) : Prop where
  /-- The exchanges lead from the first value of the cell to the present one. -/
  chain : Chain first r.log r.cell
  /-- They are those of the calls that have ended, each once, in the order in which they ended. -/
  exchanges : r.log = ended.filterMap Ended.exchange?
  callers : ∀ e ∈ ended, e.caller < given.length
  /-- The calls of each caller that have ended are its first ones, and it has their answers. -/
  turns : ∀ i calls, given[i]? = some calls → ∃ c, r.callers[i]? = some c ∧
    (endedBy i ended).map Ended.call ++ c.calls = calls ∧
      c.answers = (endedBy i ended).map Ended.answer
  /-- What a call put in, or a panic, is what its function has made of the value replaced. -/
  made : ∀ e ∈ ended, e.call.Made given.flatten state r.state e.before e.outcome
  /-- If the functions of the calls stand for others on what values mean, then what was put in
  means what the function of the call makes of what the value replaced means. -/
  means : ∀ {α : Type} (R : Reading σ V α) (f : Call σ V → α → α),
    (∀ call ∈ given.flatten, call.Applies R (f call)) → R.known state first →
      ∀ e ∈ ended, R.Makes f r.state e.call e.before e.outcome
  /-- If these commute, then in the end the order does not matter. -/
  commutes : ∀ {α : Type} (R : Reading σ V α) (f : Call σ V → α → α),
    (∀ call ∈ given.flatten, call.Applies R (f call)) → R.known state first →
      (∀ j ∈ given.flatten, ∀ k ∈ given.flatten, ∀ a, f j (f k a) = f k (f j a)) →
        (∀ c ∈ r.callers, c.calls = []) →
          R.view r.state r.cell = given.flatten.foldl (fun a call => f call a) (R.view state first)

section Runs

variable {first : V} {state : σ} {given : List (List (Call σ V))} {ended : List (Ended σ V)}
  {r : Race σ V}

theorem Inv.run [DecidableEq V] (h : Inv first given ended r)
    (hgoals : ∀ call ∈ given.flatten, call.goal.Replaces) (schedule : List Nat) :
    ∃ later, Inv first given (ended ++ later) (r.run (schedule.map .caller)) ∧
      ∀ (seen : σ → V → Prop) (made : σ → Call σ V → V → Except Panic V → Prop),
        Evidence given.flatten seen made → Backed seen made ended r →
          Backed seen made (ended ++ later) (r.run (schedule.map .caller)) := by
  induction schedule generalizing ended r with
  | nil => exact ⟨[], by rwa [List.append_nil], fun _ _ _ hbacked => by rwa [List.append_nil]⟩
  | cons i schedule ih =>
    have hmem : ∀ c ∈ r.callers, ∀ call ∈ c.calls, call ∈ given.flatten := by
      intro c hc call hcall
      obtain ⟨j, hj⟩ := List.mem_iff_getElem?.1 hc
      exact h.mem_given hj hcall
    obtain ⟨e?, hmove⟩ := step_moves r i fun c hc call hcall => hgoals call (hmem c hc call hcall)
    obtain ⟨later, hinv, hbacked⟩ := ih (h.move hmove)
    rw [List.append_assoc] at hinv
    refine ⟨e?.toList ++ later, hinv, fun seen made hev hb => ?_⟩
    rw [← List.append_assoc]
    exact hbacked seen made hev (hb.move hev hmem hmove)

/-- The last value of a chain means what the functions of its calls make of what the first one
means, one after another. -/
theorem view_of_chain {R : Reading σ V α} {f : Call σ V → α → α} {s : σ} {last : V}
    (hchain : Chain first (ended.filterMap Ended.exchange?) last)
    (hmakes : ∀ e ∈ ended, R.Makes f s e.call e.before e.outcome) :
    R.view s last = (ended.map Ended.call).foldl (fun a call => f call a) (R.view s first) := by
  induction ended generalizing first with
  | nil =>
    have hsame : first = last := hchain
    rw [hsame]
    rfl
  | cons e ended ih =>
    obtain ⟨-, w, hw, -, hview⟩ := hmakes e List.mem_cons_self
    have hexchange : e.exchange? = some ⟨e.caller, e.before, w⟩ := by rw [Ended.exchange?, hw]
    rw [List.filterMap_cons_some hexchange] at hchain
    obtain ⟨hbefore, hrest⟩ := hchain
    rw [ih hrest fun e' he' => hmakes e' (List.mem_cons_of_mem e he'), hview, List.map_cons,
      List.foldl_cons]
    rw [← hbefore]

/-- In the end all calls have ended, each once. -/
theorem Inv.perm_of_done (h : Inv first given ended r) (hdone : ∀ c ∈ r.callers, c.calls = []) :
    (ended.map Ended.call).Perm given.flatten := by
  have hnone : (r.callers.map Caller.calls).flatten = [] := by
    rw [List.flatten_eq_nil_iff]
    intro calls hcalls
    obtain ⟨c, hc, rfl⟩ := List.mem_map.1 hcalls
    exact hdone c hc
  have hshared := h.shared
  rwa [hnone, List.append_nil] at hshared

/-- After every schedule of its callers the exchanges of a cell form a chain. -/
theorem run_chained [DecidableEq V] (first : V) (state : σ) (given : List (List (Call σ V)))
    (hgoals : ∀ call ∈ given.flatten, call.goal.Replaces) (schedule : List Nat) :
    ∃ ended, Chained first state given ended
      ((start first state given).run (schedule.map .caller)) := by
  obtain ⟨ended, hinv, hbacked⟩ := (inv_start first state given).run hgoals schedule
  rw [List.nil_append] at hinv hbacked
  have hmeans {α : Type} (R : Reading σ V α) (f : Call σ V → α → α)
      (hf : ∀ call ∈ given.flatten, call.Applies R (f call)) (hfirst : R.known state first) :=
    hbacked _ _ (R.evidence hf first (R.view state first))
      (backed_start ⟨hfirst, hfirst, rfl⟩ given)
  refine ⟨ended, hinv.chain, hinv.exchanges, hinv.callers, hinv.turns, ?_, ?_, ?_⟩
  · exact (hbacked _ _ (evidence_made given.flatten state) (backed_start .refl given)).ended
  · exact fun R f hf hfirst e he => ((hmeans R f hf hfirst).ended e he).1
  · intro α R f hf hfirst hcommutes hdone
    have hends := hmeans R f hf hfirst
    have hchain := hinv.chain
    rw [hinv.exchanges] at hchain
    rw [view_of_chain hchain fun e he => (hends.ended e he).1, hends.cell.2.2]
    refine (hinv.perm_of_done hdone).foldl_eq' (fun j hj k hk a => ?_) _
    have hmem := (hinv.perm_of_done hdone).subset
    exact hcommutes k (hmem hk) j (hmem hj) a

/-- Two callers lose exchanges to each other, on a cell that compares values, where the second
one puts back what the first one saw, and on a cell that compares references. -/
theorem run_chained_two_callers :
    let xor (goal : Goal UInt8) : Call Unit UInt8 := ⟨goal, fun s v => (.ok (v ^^^ 6), s), none⟩
    let words := [[xor .update], [xor .update, xor .getAndUpdate]]
    let word := (start 5 () words).run ([0, 0, 1, 1, 1, 1, 1, 1, 0].map .caller)
    let add (goal : Goal (Option Address)) (n : Nat) : Call (List Nat) (Option Address) :=
      ⟨goal, fun heap a? =>
        (.ok (some ⟨heap.length⟩), heap ++ [(Reading.heap 0).view heap a? + n]), some .standard⟩
    let refs := [[add .update 1], [add .getAndUpdate 2]]
    let ref := (start none [] refs).run ([0, 0, 1, 1, 1, 0, 0, 0, 0, 0].map .caller)
    ((∀ call ∈ words.flatten, call.goal.Replaces) ∧
      (∀ call ∈ words.flatten, call.Applies .plain (· ^^^ 6)) ∧
      word.cell = 3 ∧ word.log.length = 3 ∧ ∃ ended, Chained 5 () words ended word) ∧
    ((∀ call ∈ refs.flatten, call.goal.Replaces) ∧
      (∀ call ∈ refs.flatten, ∃ n, call.Applies (.heap 0) (· + n)) ∧
      (∀ c ∈ ref.callers, c.calls.length = 0) ∧ ref.state = [1, 2, 3] ∧ ref.cell = some ⟨2⟩ ∧
      ∃ ended, Chained none [] refs ended ref) := by
  intro xor words word add refs ref
  have hwords : ∀ call ∈ words.flatten, call.goal.Replaces := by
    simp [words, xor, Goal.Replaces]
  have hrefs : ∀ call ∈ refs.flatten, call.goal.Replaces := by
    simp [refs, add, Goal.Replaces]
  refine ⟨⟨hwords, ?_, by decide, by decide, run_chained 5 () words hwords _⟩,
    ⟨hrefs, ?_, by decide, by decide, by decide, run_chained none [] refs hrefs _⟩⟩
  · simp only [words, List.flatten_cons, List.flatten_nil, List.cons_append, List.nil_append,
      List.append_nil, List.forall_mem_cons, List.not_mem_nil, false_implies, implies_true,
      and_true]
    exact ⟨applies_plain fun _ _ => rfl, applies_plain fun _ _ => rfl, applies_plain fun _ _ => rfl⟩
  · simp only [refs, List.flatten_cons, List.flatten_nil, List.cons_append, List.nil_append,
      List.append_nil, List.forall_mem_cons, List.not_mem_nil, false_implies, implies_true,
      and_true]
    exact ⟨⟨1, applies_heap fun _ _ => rfl⟩, ⟨2, applies_heap fun _ _ => rfl⟩⟩

end Runs

end Race

end SharedCells.Cas
