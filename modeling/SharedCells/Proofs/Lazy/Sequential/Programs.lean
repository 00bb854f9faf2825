import Mathlib.Data.List.Basic
import SharedCells.Lazy.Settle
import SharedCells.Proofs.Lazy.Sequential.Account
import SharedCells.Proofs.Lazy.Sequential.Alone

/-!
# Programs of one thread

A thread that is alone with a resettable reference never waits. `run_sequential` says that the
answers that it gets are those of the account, whatever its program.
-/

namespace SharedCells.Lazy

variable {T E : Type}

/-- An initializer that does nothing but end. -/
def plainly (endings : Nat → Ending T E) (run : Nat) : Routine T E := ⟨[], none, endings run⟩

section Calls

variable {endings : Nat → Ending T E} {t h : Nat} {l : Lineage T E} {call : Call}

/-- The lineage after a holder was computed. -/
def Lineage.compute (endings : Nat → Ending T E) (l : Lineage T E) (h : Nat) : Lineage T E :=
  (l.enter h).allocate.set h
    { l.holders h with
      phase := .complete
      outcome := some ((endings (l.runs.length + 1)).outcome l.allocations)
      armed := false }

/-- A call that holds the claim runs the initializer and gives what comes of it. -/
theorem leads_arming (hnone : (l.holders h).outcome = none)
    (harmed : (l.holders h).armed = true) :
    Leads (plainly endings) t (l.doing t call (.arming h))
      ((l.compute endings h).done t call
        (.outcome ((endings (l.runs.length + 1)).outcome l.allocations))) := by
  have hran : Leads (plainly endings) t
      ((l.enter h).doing t call (.running h .publish (l.runs.length + 1) []))
      ((l.enter h).allocate.doing t call
        (.publishing h ((endings (l.runs.length + 1)).outcome l.allocations))) := by
    refine Leads.advance fun s hs => ?_
    rw [System.advance, if_pos (by intro gate hgate; cases hgate)]
    exact conclude_publish hs _
  refine (leads_entered hnone harmed).trans (hran.trans ?_)
  have hcompute : l.compute endings h = (l.enter h).allocate.set h
      { (l.enter h).holders h with
        phase := .complete
        outcome := some ((endings (l.runs.length + 1)).outcome l.allocations) } := by
    simp [Lineage.compute, Lineage.enter]
  rw [hcompute]
  exact leads_publishing

/-- What a lineage keeps when a holder is computed. -/
structure Lineage.Spares (l l' : Lineage T E) (h : Nat) : Prop where
  holders : ∀ h', h' ≠ h → l'.holders h' = l.holders h'
  installed : l'.installed = l.installed
  current : l'.current = l.current
  generation : l'.generation = l.generation
  log : l'.log = l.log
  calls : l'.calls = l.calls

/-- A call gets the outcome of a generation that the account tells, and computes it if need be. -/
theorem leads_entering (endings : Nat → Ending T E) (call : Call) {a : Account T E}
    {retired : Bool} (hruns : l.runs.length = a.calls)
    (hallocations : l.allocations = a.calls)
    (hholder : l.holders h = { a.era.holder with retired }) (hlive : a.era.isCancelled = false)
    (hpolicy : call.policy.leaveOnRetire = true → retired = false) :
    ∃ l' : Lineage T E, Leads (plainly endings) t (l.doing t call (.entering h))
        (l'.done t call (.outcome (a.resolve endings).1)) ∧
      l'.runs.length = (a.resolve endings).2.calls ∧
      l'.allocations = (a.resolve endings).2.calls ∧
      l'.holders h = { (a.resolve endings).2.era.holder with retired } ∧ l.Spares l' h := by
  obtain ⟨calls, resets, era⟩ := a
  cases era with
  | cancelled => cases hlive
  | resolved o =>
    have hout : (l.holders h).outcome = some o := by rw [hholder]; rfl
    exact ⟨l, leads_entering_some hout, hruns, hallocations, hholder, fun _ _ => rfl, rfl, rfl,
      rfl, rfl, rfl⟩
  | unresolved =>
    have hnone : (l.holders h).outcome = none := by rw [hholder]; rfl
    have hclaim : Leads (plainly endings) t _ _ := leads_entering_fresh hnone
      (by rw [hholder]; rfl) (by rw [hholder]; exact hpolicy)
    let claimed := l.set h { l.holders h with phase := .resolving }
    have hrun : Leads (plainly endings) t (claimed.doing t call (.arming h))
        ((claimed.compute endings h).done t call
          (.outcome ((endings (l.runs.length + 1)).outcome l.allocations))) :=
      leads_arming (by simp [claimed, hnone])
        (by simp [claimed, hholder, Era.holder, Holder.fresh])
    have hcalls : l.runs.length = calls := hruns
    have hgiven : l.allocations = calls := hallocations
    rw [Account.resolve_unresolved rfl]
    refine ⟨claimed.compute endings h, ?_, ?_, congrArg (· + 1) hgiven, ?_, fun h' hne => ?_, rfl,
      rfl, rfl, rfl, rfl⟩
    · have hleads := hclaim.trans hrun
      rw [hcalls, hgiven] at hleads
      exact hleads
    · exact (List.length_append).trans (congrArg (· + 1) hcalls)
    · simp [Lineage.compute, claimed, Lineage.set, hholder, Era.holder, Holder.fresh, hcalls,
        hgiven]
    · simp [Lineage.compute, claimed, Lineage.set, Lineage.enter, Lineage.allocate, hne]

/-! ## Calls -/

/-- The account tells what the reference has come to, and no call is being made. -/
structure Account.Tells (a : Account T E) (t : Nat) (l : Lineage T E) : Prop where
  idle : l.frames t = []
  runs : l.runs.length = a.calls
  allocations : l.allocations = a.calls
  resets : l.generation = a.resets
  /-- The holders to come are not those that were. -/
  current : l.current < l.installed
  era : l.holders l.current = a.era.holder

variable {a : Account T E} {calls : List Call}

theorem Account.Tells.done (ha : a.Tells t l) (call : Call) (answer : Answer T E) :
    a.Tells t (l.done t call answer) :=
  ⟨Function.update_self .., ha.runs, ha.allocations, ha.resets, ha.current, ha.era⟩

/-- What an operation leaves and answers is what the account says. -/
structure Operation.Performed (endings : Nat → Ending T E) (op : Operation) (a : Account T E)
    (t : Nat) (l l' : Lineage T E) : Prop where
  tells : (op.perform endings a).2.Tells t l'
  calls : l'.calls = l.calls
  log : l'.log = l.log ++ [⟨.thread t, op.call, (op.perform endings a).1⟩]

/-- A call of `get` on a reference that is not cancelled. -/
theorem leads_get_live {interruptible : Bool} (ha : a.Tells t l)
    (hlive : a.era.isCancelled = false)
    (hentering : Leads (plainly endings) t (l.doing t (.get ⟨interruptible, true⟩) .start)
      (l.doing t (.get ⟨interruptible, true⟩) (.entering l.current))) :
    ∃ l' : Lineage T E,
      Leads (plainly endings) t (l.doing t (.get ⟨interruptible, true⟩) .start) l' ∧
        (Operation.get interruptible).Performed endings a t l l' := by
  obtain ⟨l', hleads, hruns, hallocations, hholder, hspares⟩ :=
    leads_entering (t := t) endings (.get ⟨interruptible, true⟩)
      ha.runs ha.allocations (ha.era.trans a.era.retired_holder.symm) hlive fun _ => rfl
  have hresets : (a.resolve endings).2.resets = a.resets := by
    unfold Account.resolve
    split <;> rfl
  refine ⟨_, hentering.trans hleads, ⟨Function.update_self .., hruns, hallocations, ?_, ?_, ?_⟩,
    hspares.calls, ?_⟩
  · exact hspares.generation.trans (ha.resets.trans hresets.symm)
  · show l'.current < l'.installed
    rw [hspares.current, hspares.installed]
    exact ha.current
  · show l'.holders l'.current = _
    rw [hspares.current, hholder, Era.retired_holder]
    rfl
  · exact congrArg (· ++ [Reply.mk (.thread t) (.get ⟨interruptible, true⟩)
      (.outcome (a.resolve endings).1)]) hspares.log

theorem leads_get {interruptible : Bool} (ha : a.Tells t l) :
    ∃ l' : Lineage T E,
      Leads (plainly endings) t (l.doing t (.get ⟨interruptible, true⟩) .start) l' ∧
        (Operation.get interruptible).Performed endings a t l l' := by
  cases hvalue : a.era.value? with
  | some v =>
    have hera : a.era = .resolved (.ok v) := by
      cases hera : a.era with
      | resolved o =>
        rw [hera] at hvalue
        cases o with
        | ok w => rw [Option.some.inj hvalue]
        | error e => cases hvalue
      | _ =>
        rw [hera] at hvalue
        cases hvalue
    have hresolve : a.resolve endings = (.ok v, a) := by rw [Account.resolve, hera]
    refine ⟨_, leads_observe (a := .outcome (.ok v)) (fun _ => rfl) fun _ => ?_, ?_, rfl, ?_⟩
    · rw [ha.era, hera]
      rfl
    · rw [Operation.perform, hresolve]
      exact ha.done _ _
    · rw [Operation.perform, hresolve]
      rfl
  | none =>
    -- No value is found at the first look, so the call goes on to get the outcome.
    have hentering : Leads (plainly endings) t (l.doing t (.get ⟨interruptible, true⟩) .start)
        (l.doing t (.get ⟨interruptible, true⟩) (.entering l.current)) :=
      leads_unseen (by rw [ha.era, Era.peek_holder, hvalue])
    cases hlive : a.era.isCancelled with
    | false => exact leads_get_live ha hlive hentering
    | true =>
      have hera : a.era = .cancelled := a.era.eq_of_isCancelled hlive
      have hholder : l.holders l.current = .cancelled := by rw [ha.era, hera]; rfl
      have hresolve : a.resolve endings = (.error .cancelled, a) := by rw [Account.resolve, hera]
      refine ⟨_, hentering.trans (leads_entering_cancelled ?_ ?_ fun _ => ?_), ?_, rfl, ?_⟩
      · rw [hholder]
        rfl
      · rw [hholder]
        rfl
      · rw [hholder]
        rfl
      · rw [Operation.perform, hresolve]
        exact ha.done _ _
      · rw [Operation.perform, hresolve]
        rfl

/-- A call that was too late to replace the current holder. -/
theorem leads_cancelled (op : Operation)
    (hlaunch : ∀ s : System T E, s.launch t op.call = s.goTo t (.testing s.current))
    (ha : a.Tells t l) (hcancelled : a.era.isCancelled = true)
    (hperform : op.perform endings a = (System.tooLate op.call, a)) :
    ∃ l' : Lineage T E, Leads (plainly endings) t (l.doing t op.call .start) l' ∧
      op.Performed endings a t l l' := by
  have hholder : (l.holders l.current).isCancelled = true := by
    rw [ha.era, Era.isCancelled_holder, hcancelled]
  refine ⟨_, leads_tooLate hlaunch hholder, ?_, rfl, ?_⟩
  · rw [hperform]
    exact ha.done _ _
  · rw [hperform]
    rfl

theorem leads_reset (ha : a.Tells t l) :
    ∃ l' : Lineage T E, Leads (plainly endings) t (l.doing t .reset .start) l' ∧
      Operation.reset.Performed endings a t l l' := by
  cases hlive : a.era.isCancelled with
  | true => exact leads_cancelled .reset (fun _ => rfl) ha hlive (if_pos hlive)
  | false =>
    have hholder : (l.holders l.current).isCancelled = false := by
      rw [ha.era, Era.isCancelled_holder, hlive]
    have hne : l.current ≠ l.installed := Nat.ne_of_lt ha.current
    -- The reference after the swap, after the count, and after the old holder is retired.
    let swapped := l.install .fresh
    let counted : Lineage T E := { swapped with generation := swapped.generation + 1 }
    let retired := counted.set l.current { counted.holders l.current with retired := true }
    have hcounted : Leads (plainly endings) t (swapped.doing t .reset (.counting l.current))
        (counted.doing t .reset (.retiring l.current)) := by
      refine Leads.advance fun s hs => ?_
      have hcount : ({ s with generation := s.generation + 1 } : System T E).lineage =
          counted.doing t .reset (.counting l.current) :=
        congrArg (fun l : Lineage T E => { l with generation := l.generation + 1 }) hs
      exact goTo_doing hcount _
    have hretired : Leads (plainly endings) t
        (retired.doing t .reset (.draining l.current (.resolve l.current)))
        (retired.doing t .reset (.entering l.current)) :=
      (leads_draining _).trans (Leads.goTo l.current fun _ _ => rfl)
    have hold : retired.holders l.current = { a.era.holder with retired := true } := by
      simp [retired, counted, swapped, Lineage.install, Lineage.holders_set_of_ne, hne, ha.era]
    obtain ⟨l', hleads, hruns, hallocations, -, hspares⟩ :=
      leads_entering (t := t) (l := retired) endings .reset ha.runs
        ha.allocations hold hlive (by intro hpolicy; cases hpolicy)
    have hperform : Operation.reset.perform endings a = (.outcome (a.resolve endings).1,
        ⟨(a.resolve endings).2.calls, a.resets + 1, .unresolved⟩) := by
      rw [Operation.perform, hlive]
      rfl
    refine ⟨_, (leads_swapping (fun _ => rfl) hholder ha.current).trans
      (hcounted.trans (leads_retiring.trans (hretired.trans hleads))), ?_, hspares.calls, ?_⟩
    · rw [hperform]
      refine ⟨Function.update_self .., hruns, hallocations, ?_, ?_, ?_⟩
      · exact hspares.generation.trans (congrArg (· + 1) ha.resets)
      · show l'.current < l'.installed
        rw [hspares.current, hspares.installed]
        exact Nat.lt_succ_self _
      · show l'.holders l'.current = _
        have hcurrent : retired.current = l.installed := rfl
        rw [hspares.current, hcurrent, hspares.holders _ hne.symm,
          Lineage.holders_set_of_ne _ _ hne.symm]
        exact Lineage.holders_set_self ..
    · rw [hperform]
      exact congrArg (· ++ [Reply.mk (.thread t) .reset (.outcome (a.resolve endings).1)])
        hspares.log

theorem leads_cancel (ha : a.Tells t l) :
    ∃ l' : Lineage T E, Leads (plainly endings) t (l.doing t .cancel .start) l' ∧
      Operation.cancel.Performed endings a t l l' := by
  cases hlive : a.era.isCancelled with
  | true =>
    have hera : a.era = .cancelled := a.era.eq_of_isCancelled hlive
    refine leads_cancelled .cancel (fun _ => rfl) ha hlive ?_
    rw [Operation.perform, hlive, ← hera]
    rfl
  | false =>
    have hholder : (l.holders l.current).isCancelled = false := by
      rw [ha.era, Era.isCancelled_holder, hlive]
    have hne : l.installed ≠ l.current := (Nat.ne_of_lt ha.current).symm
    refine ⟨_, (leads_swapping (fun _ => rfl) hholder ha.current).trans
      (leads_retiring.trans (leads_draining_answer _)), ?_, rfl, ?_⟩
    · refine ⟨Function.update_self .., ha.runs, ha.allocations, ha.resets, Nat.lt_succ_self _, ?_⟩
      show ((l.install .cancelled).set l.current _).holders l.installed = _
      rw [Lineage.holders_set_of_ne _ _ hne]
      exact Lineage.holders_set_self ..
    · rw [Operation.perform, hlive]
      rfl

theorem leads_perform (endings : Nat → Ending T E) (op : Operation) (ha : a.Tells t l) :
    ∃ l' : Lineage T E, Leads (plainly endings) t (l.doing t op.call .start) l' ∧
      op.Performed endings a t l l' := by
  have hpeek : (l.holders l.current).peek = a.era.value? := by rw [ha.era, Era.peek_holder]
  have hcancelled : (l.holders l.current).isCancelled = a.era.isCancelled := by
    rw [ha.era, Era.isCancelled_holder]
  cases op with
  | get interruptible => exact leads_get ha
  | reset => exact leads_reset ha
  | cancel => exact leads_cancel ha
  | tryGet =>
    exact ⟨_, leads_observe (fun _ => rfl)
        fun _ => congrArg (fun v? => some (Answer.value v?)) hpeek,
      ha.done _ _, rfl, rfl⟩
  | isInitialized =>
    exact ⟨_, leads_observe (fun _ => rfl)
        fun _ => congrArg (fun v? => some (Answer.flag (Option.isSome v?))) hpeek,
      ha.done _ _, rfl, rfl⟩
  | isCancelled =>
    exact ⟨_, leads_observe (fun _ => rfl)
        fun _ => congrArg (fun b => some (Answer.flag b)) hcancelled,
      ha.done _ _, rfl, rfl⟩
  | generation =>
    refine ⟨_, Leads.advance fun s hs => ?_, ha.done _ (.count a.resets), rfl, rfl⟩
    have hgeneration : s.generation = a.resets :=
      (congrArg Lineage.generation hs).trans ha.resets
    rw [← hgeneration]
    exact answer_done hs _

end Calls

/-! ## Programs -/

section Programs

variable {endings : Nat → Ending T E} {t : Nat} {l : Lineage T E} {a : Account T E}

theorem leads_performAll (endings : Nat → Ending T E) (ops : List Operation) (ha : a.Tells t l)
    (hcalls : l.calls t = ops.map Operation.call) :
    ∃ l' : Lineage T E, Leads (plainly endings) t l l' ∧
      (a.performAll endings ops).2.Tells t l' ∧ l'.calls t = [] ∧
      ∃ log, l'.log = l.log ++ log ∧ (∀ r ∈ log, r.caller = .thread t) ∧
        log.map Reply.answer = (a.performAll endings ops).1 := by
  induction ops generalizing a l with
  | nil => exact ⟨l, Leads.refl l, ha, hcalls, [], (List.append_nil _).symm, by simp, rfl⟩
  | cons op ops ih =>
    have hbegun := leads_begin (plainly endings) ha.idle hcalls
    obtain ⟨l₁, hleads, hperformed⟩ := leads_perform (t := t) endings op
      (l := { l with calls := Function.update l.calls t (ops.map Operation.call) })
      ⟨ha.idle, ha.runs, ha.allocations, ha.resets, ha.current, ha.era⟩
    have hrest : l₁.calls t = ops.map Operation.call := by
      rw [hperformed.calls]
      exact Function.update_self ..
    obtain ⟨l₂, hleads', htells, hdone, log, hlog, hcallers, hanswers⟩ :=
      ih hperformed.tells hrest
    refine ⟨l₂, hbegun.trans (hleads.trans hleads'), htells, hdone,
      ⟨.thread t, op.call, (op.perform endings a).1⟩ :: log, ?_, ?_, ?_⟩
    · rw [hlog, hperformed.log, List.append_assoc]
      rfl
    · exact List.forall_mem_cons.2 ⟨rfl, hcallers⟩
    · rw [List.map_cons, hanswers]
      rfl

/-- A thread that is alone and makes the calls of a program. -/
def alone (program : List Operation) (status : Status) : Table (Thread T E) :=
  ⟨.idle, [⟨[], program.map Operation.call, status⟩]⟩

/-- A reference has answered a program as its account says, and has come to the same. -/
structure Answered (endings : Nat → Ending T E) (program : List Operation) (s : System T E) :
    Prop where
  idle : s.isIdle 0 = true
  answers : s.answersTo (.thread 0) = (Account.new.performAll endings program).1
  runs : s.runs.length = (Account.new.performAll endings program).2.calls
  resets : s.generation = (Account.new.performAll endings program).2.resets
  era : (s.holder s.current).bare = (Account.new.performAll endings program).2.era.holder

/-- A thread that is alone with a resettable reference gets the answers that the account tells,
whatever its calls, how the calls of the initializer end, and whether it was interrupted. -/
theorem run_sequential (endings : Nat → Ending T E) (program : List Operation)
    (status : Status) :
    (∃ n, ∀ m, n ≤ m → Answered endings program
      ((System.start none (alone program status)).run (plainly endings)
        (List.replicate m (.thread 0)))) ∧
    (∀ (a : Account T E) (op : Operation), a.era = .cancelled → (op.perform endings a).2 = a) ∧
    (Account.new.performAll endings program).2.Balanced := by
  have hnew : (Account.new : Account T E).Tells 0
      (System.start none (alone program status)).lineage :=
    ⟨rfl, rfl, rfl, rfl, Nat.zero_lt_one, rfl⟩
  refine ⟨?_, fun a op => op.perform_cancelled,
    Account.Balanced.performAll (fun _ => rfl) program⟩
  obtain ⟨l, hleads, htells, hdone, log, hlog, hcallers, hanswers⟩ :=
    leads_performAll endings program hnew rfl
  obtain ⟨n, rfl⟩ := hleads _ rfl
  refine ⟨n, fun m hm => ?_⟩
  obtain ⟨k, rfl⟩ := Nat.exists_eq_add_of_le hm
  have hrun : (System.start none (alone program status)).run (plainly endings)
      (List.replicate (n + k) (.thread 0)) =
        (System.start none (alone program status)).run (plainly endings)
          (List.replicate n (.thread 0)) := by
    rw [← List.replicate_append_replicate, System.run_append]
    exact run_idle htells.idle hdone k
  rw [hrun]
  refine ⟨?_, ?_, htells.runs, htells.resets, htells.era⟩
  · have hframes := htells.idle
    have hcalls := hdone
    simp only [System.lineage] at hframes hcalls
    rw [System.isIdle, hframes, hcalls]
    rfl
  · have hall : ((System.start none (alone program status)).run (plainly endings)
        (List.replicate n (.thread 0))).log = log := hlog
    rw [System.answersTo, hall, ← hanswers, ← List.filterMap_eq_map]
    refine List.filterMap_congr fun r hr => ?_
    rw [if_pos (hcallers r hr)]
    rfl

/-- The first call of the initializer fails; a reset gives that failure out and takes it away. -/
example : (Account.new.performAll
      (fun n => if n = 1 then Ending.error "first" else .value (10 * n))
      [.get false, .reset, .get true, .cancel, .get false, .generation]).1 =
    [.outcome (.error (.initialization ⟨0, "first"⟩)),
      .outcome (.error (.initialization ⟨0, "first"⟩)), .outcome (.ok ⟨1, 20⟩), .flag true,
      .outcome (.error .cancelled), .count 1] := rfl

end Programs

end SharedCells.Lazy
