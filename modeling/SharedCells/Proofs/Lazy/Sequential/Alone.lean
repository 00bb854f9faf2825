import SharedCells.Proofs.Lazy.Lineage

/-!
# Turns of a thread that is alone

A thread that nobody disturbs goes from stage to stage. `Leads` is what its turns lead to,
whatever the lineage does not show; a call is a chain of such steps.
-/

namespace SharedCells.Lazy

variable {T E : Type}

/-- Turns of one thread lead from one lineage to another, whatever the lineages do not show. -/
def Leads (initializer : Nat → Routine T E) (t : Nat) (l l' : Lineage T E) : Prop :=
  ∀ s : System T E, s.lineage = l →
    ∃ n, (s.run initializer (List.replicate n (.thread t))).lineage = l'

namespace Leads

variable {initializer : Nat → Routine T E} {t : Nat} {l l' l'' : Lineage T E}

theorem refl (l : Lineage T E) : Leads initializer t l l := fun _ hs => ⟨0, hs⟩

theorem trans (h : Leads initializer t l l') (h' : Leads initializer t l' l'') :
    Leads initializer t l l'' := by
  intro s hs
  obtain ⟨n, hn⟩ := h s hs
  obtain ⟨m, hm⟩ := h' _ hn
  refine ⟨n + m, ?_⟩
  rw [← List.replicate_append_replicate, System.run_append]
  exact hm

theorem step (h : ∀ s : System T E, s.lineage = l → (s.stepThread initializer t).lineage = l') :
    Leads initializer t l l' :=
  fun s hs => ⟨1, h s hs⟩

end Leads

namespace Lineage

/-- The lineage while a thread makes one call. -/
def doing (l : Lineage T E) (t : Nat) (call : Call) (stage : Stage T E) : Lineage T E :=
  l.put t [⟨call, stage⟩]

/-- The lineage after that call ended. -/
def done (l : Lineage T E) (t : Nat) (call : Call) (a : Answer T E) : Lineage T E :=
  (l.put t []).append ⟨.thread t, call, a⟩

end Lineage

section Steps

variable {initializer : Nat → Routine T E} {t h : Nat} {l l' : Lineage T E} {call : Call}
  {stage : Stage T E}

theorem frames_of_doing {s : System T E} (hs : s.lineage = l.doing t call stage) :
    (s.thread t).frames = [⟨call, stage⟩] :=
  (congrFun (congrArg Lineage.frames hs) t).trans (Function.update_self ..)

theorem goTo_doing {s : System T E} (hs : s.lineage = l.doing t call stage)
    (stage' : Stage T E) : (s.goTo t stage').lineage = l.doing t call stage' := by
  rw [s.lineage_goTo (frames_of_doing hs), hs, Lineage.doing, Lineage.put_put]
  rfl

theorem answer_done {s : System T E} (hs : s.lineage = l.doing t call stage) (a : Answer T E) :
    (s.answer t a).lineage = l.done t call a := by
  rw [s.lineage_answer (frames_of_doing hs), hs]
  show ((l.put t [⟨call, stage⟩]).put t []).append ⟨.thread t, call, a⟩ = _
  rw [Lineage.put_put]
  rfl

theorem holder_of_doing {s : System T E} (hs : s.lineage = l.doing t call stage) (h : Nat) :
    (s.holder h).bare = l.holders h :=
  congrFun (congrArg Lineage.holders hs) h

theorem updateHolder_doing (h : Nat) {s : System T E} (hs : s.lineage = l.doing t call stage)
    (f : Holder T E → Holder T E) (hf : ∀ holder, (f holder).bare = f holder.bare)
    (stage' : Stage T E) :
    ((s.updateHolder h f).goTo t stage').lineage =
      (l.set h (f (l.holders h))).doing t call stage' := by
  rw [s.lineage_goTo_updateHolder (frames_of_doing hs), hf, holder_of_doing hs, hs, Lineage.doing,
    Lineage.set, Lineage.put, Lineage.put, Function.update_idem]
  rfl

theorem enter_doing {s : System T E} (hs : s.lineage = l.doing t call stage) {purpose : Purpose} :
    ((s.enter h).2.goTo t
        (.running h purpose (s.enter h).1 (initializer (s.enter h).1).during)).lineage =
      (l.enter h).doing t call (.running h purpose (l.runs.length + 1)
        (initializer (l.runs.length + 1)).during) := by
  have hruns : s.runs = l.runs := congrArg Lineage.runs hs
  have henter : (s.enter h).2.lineage = (l.enter h).doing t call stage := by
    rw [s.lineage_enter, hs]
    rfl
  refine (goTo_doing henter _).trans ?_
  rw [System.enter, hruns]

/-- The end of a run whose outcome is to be published. -/
theorem conclude_publish {s : System T E} (hs : s.lineage = l.doing t call stage)
    (ending : Ending T E) :
    (s.conclude t h ending .publish).lineage =
      l.allocate.doing t call (.publishing h (ending.outcome l.allocations)) := by
  have hallocations : s.allocations = l.allocations := congrArg Lineage.allocations hs
  have hallocate : s.allocate.2.lineage = l.allocate.doing t call stage :=
    congrArg Lineage.allocate hs
  rw [← hallocations]
  exact goTo_doing hallocate _

/-- The end of a run whose outcome is given to the caller alone. -/
theorem conclude_consume {s : System T E} (hs : s.lineage = l.doing t call stage)
    (ending : Ending T E) :
    (s.conclude t h ending .consume).lineage =
      l.allocate.done t call (.outcome (ending.outcome l.allocations)) := by
  have hallocations : s.allocations = l.allocations := congrArg Lineage.allocations hs
  have hallocate : s.allocate.2.lineage = l.allocate.doing t call stage :=
    congrArg Lineage.allocate hs
  rw [← hallocations, ← ending.given_eq_outcome]
  exact answer_done hallocate _

/-- One turn is one step of the call that is being made. -/
theorem Leads.advance (hadvance : ∀ s : System T E, s.lineage = l.doing t call stage →
      (s.advance initializer t call stage).lineage = l') :
    Leads initializer t (l.doing t call stage) l' := by
  refine Leads.step fun s hs => ?_
  rw [System.stepThread, frames_of_doing hs]
  exact hadvance s hs

theorem Leads.goTo (h : Nat) {stage' : Stage T E}
    (hadvance : ∀ s : System T E, (s.holder h).bare = l.holders h →
      s.advance initializer t call stage = s.goTo t stage') :
    Leads initializer t (l.doing t call stage) (l.doing t call stage') := by
  refine Leads.advance fun s hs => ?_
  rw [hadvance s (holder_of_doing hs h)]
  exact goTo_doing hs stage'

theorem Leads.answer (h : Nat) {a : Answer T E}
    (hadvance : ∀ s : System T E, (s.holder h).bare = l.holders h →
      s.advance initializer t call stage = s.answer t a) :
    Leads initializer t (l.doing t call stage) (l.done t call a) := by
  refine Leads.advance fun s hs => ?_
  rw [hadvance s (holder_of_doing hs h)]
  exact answer_done hs a

/-- Turns of a thread that has nothing to do change nothing. -/
theorem run_idle {initializer : Nat → Routine T E} {s : System T E}
    (hframes : (s.thread t).frames = []) (hcalls : (s.thread t).calls = []) (n : Nat) :
    s.run initializer (List.replicate n (.thread t)) = s := by
  induction n with
  | zero => rfl
  | succ n ih =>
    have hstep : s.step initializer (.thread t) = s := by
      rw [System.step, System.stepThread, hframes, hcalls]
    rw [List.replicate_succ, System.run, List.foldl_cons, hstep]
    exact ih

/-! ## The outcome of a holder -/

theorem leads_entering_some {o : Outcome T E} (ho : (l.holders h).outcome = some o) :
    Leads initializer t (l.doing t call (.entering h)) (l.done t call (.outcome o)) := by
  refine Leads.answer h fun s hs => ?_
  have hout : (s.holder h).outcome = some o := (congrArg Holder.outcome hs).trans ho
  rw [System.advance, hout]

/-- The waiters, however many they are, are woken before a call goes on. -/
theorem leads_draining (after : After T E) :
    Leads initializer t (l.doing t call (.draining h after))
      (l.doing t call (.waking [] after)) := by
  have hwaking : ∀ threads : List Nat, Leads initializer t
      (l.doing t call (.waking threads after)) (l.doing t call (.waking [] after)) := by
    intro threads
    induction threads with
    | nil => exact Leads.refl _
    | cons u us ih =>
      refine Leads.trans (Leads.advance fun s hs => ?_) ih
      exact goTo_doing ((s.lineage_updateStatus u _).trans hs) _
  intro s hs
  have hdrained : (s.stepThread initializer t).lineage =
      l.doing t call (.waking (s.holder h).waiters after) := by
    rw [System.stepThread, frames_of_doing hs]
    exact goTo_doing ((s.lineage_updateWaiters h _).trans hs) _
  obtain ⟨n, hn⟩ := hwaking _ _ hdrained
  exact ⟨n + 1, hn⟩

/-- A call that finds no outcome goes on to the phase, if the holder is not retired. -/
theorem leads_choosing (hnone : (l.holders h).outcome = none)
    (hretired : call.policy.leaveOnRetire = true → (l.holders h).retired = false) :
    Leads initializer t (l.doing t call (.entering h)) (l.doing t call (.choosing h)) := by
  have hentering : Leads initializer t (l.doing t call (.entering h))
      (l.doing t call (if call.policy.leaveOnRetire then .checking h else .choosing h)) := by
    refine Leads.goTo h fun s hs => ?_
    have hout : (s.holder h).outcome = none := (congrArg Holder.outcome hs).trans hnone
    rw [System.advance, hout]
  cases hpolicy : call.policy.leaveOnRetire with
  | false =>
    rw [hpolicy] at hentering
    exact hentering
  | true =>
    simp only [hpolicy, if_true] at hentering
    refine hentering.trans (Leads.goTo h fun s hs => ?_)
    have hstays : (s.holder h).retired = false :=
      (congrArg Holder.retired hs).trans (hretired hpolicy)
    rw [System.advance, hstays]
    rfl

theorem leads_entering_cancelled (hnone : (l.holders h).outcome = none)
    (hphase : (l.holders h).phase = .cancelled)
    (hretired : call.policy.leaveOnRetire = true → (l.holders h).retired = false) :
    Leads initializer t (l.doing t call (.entering h))
      (l.done t call (.outcome (.error .cancelled))) := by
  refine (leads_choosing hnone hretired).trans (Leads.answer h fun s hs => ?_)
  have hcancelled : (s.holder h).phase = .cancelled := (congrArg Holder.phase hs).trans hphase
  rw [System.advance, hcancelled]

/-- Nobody else being there, a call claims a holder that was not asked yet. -/
theorem leads_entering_fresh (hnone : (l.holders h).outcome = none)
    (hphase : (l.holders h).phase = .unresolved)
    (hretired : call.policy.leaveOnRetire = true → (l.holders h).retired = false) :
    Leads initializer t (l.doing t call (.entering h))
      ((l.set h { l.holders h with phase := .resolving }).doing t call (.arming h)) := by
  have hchoosing : Leads initializer t (l.doing t call (.choosing h))
      (l.doing t call (.claiming h)) := by
    refine Leads.goTo h fun s hs => ?_
    have hunresolved : (s.holder h).phase = .unresolved := (congrArg Holder.phase hs).trans hphase
    rw [System.advance, hunresolved]
  have hclaiming : Leads initializer t (l.doing t call (.claiming h))
      ((l.set h { l.holders h with phase := .resolving }).doing t call
        (if call.policy.leaveOnRetire then .rechecking h else .arming h)) := by
    refine Leads.advance fun s hs => ?_
    have hunresolved : (s.holder h).phase = .unresolved :=
      (congrArg Holder.phase (holder_of_doing hs h)).trans hphase
    rw [System.advance, if_pos hunresolved]
    exact updateHolder_doing h hs (fun holder => { holder with phase := .resolving })
      (fun _ => rfl) _
  refine (leads_choosing hnone hretired).trans (hchoosing.trans ?_)
  cases hpolicy : call.policy.leaveOnRetire with
  | false =>
    rw [hpolicy] at hclaiming
    exact hclaiming
  | true =>
    simp only [hpolicy, if_true] at hclaiming
    refine hclaiming.trans (Leads.goTo h fun s hs => ?_)
    rw [Lineage.holders_set_self] at hs
    have hstays : (s.holder h).retired = false :=
      (congrArg Holder.retired hs).trans (hretired hpolicy)
    rw [System.advance, hstays]
    rfl

theorem leads_draining_answer (a : Answer T E) :
    Leads initializer t (l.doing t call (.draining h (.answer a))) (l.done t call a) :=
  (leads_draining (.answer a)).trans (Leads.answer h fun _ _ => rfl)

/-- An outcome is published, the holder is complete, and the waiters are woken. -/
theorem leads_publishing {o : Outcome T E} :
    Leads initializer t (l.doing t call (.publishing h o))
      ((l.set h { l.holders h with phase := .complete, outcome := some o }).done t call
        (.outcome o)) := by
  have hpublished : Leads initializer t (l.doing t call (.publishing h o))
      ((l.set h { l.holders h with outcome := some o }).doing t call (.completing h o)) :=
    Leads.advance fun s hs =>
      updateHolder_doing h hs (fun holder => { holder with outcome := some o }) (fun _ => rfl) _
  have hcompleted : Leads initializer t
      ((l.set h { l.holders h with outcome := some o }).doing t call (.completing h o))
      ((l.set h { l.holders h with phase := .complete, outcome := some o }).doing t call
        (.draining h (.answer (.outcome o)))) := by
    refine Leads.advance fun s hs => ?_
    have hcomplete := updateHolder_doing h hs (fun holder => { holder with phase := .complete })
      (fun _ => rfl) (.draining h (.answer (.outcome o)))
    rw [Lineage.holders_set_self, Lineage.set_set] at hcomplete
    exact hcomplete
  exact hpublished.trans (hcompleted.trans (leads_draining_answer _))

/-- A call that holds the claim takes the initializer and runs it. -/
theorem leads_entered (hnone : (l.holders h).outcome = none) (harmed : (l.holders h).armed = true) :
    Leads initializer t (l.doing t call (.arming h))
      ((l.enter h).doing t call (.running h .publish (l.runs.length + 1)
        (initializer (l.runs.length + 1)).during)) := by
  refine Leads.advance fun s hs => ?_
  have hout : (s.holder h).outcome = none :=
    (congrArg Holder.outcome (holder_of_doing hs h)).trans hnone
  have harmed' : (s.holder h).armed = true :=
    (congrArg Holder.armed (holder_of_doing hs h)).trans harmed
  simp only [System.advance, hout, harmed', if_true]
  exact enter_doing hs

/-! ## Calls -/

theorem leads_begin (initializer : Nat → Routine T E) {calls : List Call}
    (hidle : l.frames t = []) (hcalls : l.calls t = call :: calls) :
    Leads initializer t l
      (Lineage.doing { l with calls := Function.update l.calls t calls } t call .start) := by
  refine Leads.step fun s hs => ?_
  have hframes : (s.thread t).frames = [] := (congrFun (congrArg Lineage.frames hs) t).trans hidle
  have hcalls' : (s.thread t).calls = call :: calls :=
    (congrFun (congrArg Lineage.calls hs) t).trans hcalls
  rw [System.stepThread, hframes, hcalls']
  exact (s.lineage_begin_next t call calls hframes).trans (hs ▸ rfl)

theorem leads_peeking
    (hlaunch : ∀ s : System T E, s.launch t call = s.goTo t (.peeking s.current)) :
    Leads initializer t (l.doing t call .start) (l.doing t call (.peeking l.current)) := by
  refine Leads.advance fun s hs => ?_
  have hcurrent : s.current = l.current := congrArg Lineage.current hs
  rw [System.advance, hlaunch, hcurrent]
  exact goTo_doing hs _

/-- A call of `get` that sees no value goes on to get the outcome. -/
theorem leads_unseen {policy : Policy} (hpeek : (l.holders l.current).peek = none) :
    Leads initializer t (l.doing t (.get policy) .start)
      (l.doing t (.get policy) (.entering l.current)) := by
  refine (leads_peeking fun _ => rfl).trans (Leads.goTo l.current fun s hs => ?_)
  have hunseen : (s.holder l.current).peek = none := by
    rw [← hpeek, ← hs]
    rfl
  rw [System.advance, Holder.observe, hunseen]
  rfl

/-- A call that is answered by a look at the current holder. -/
theorem leads_observe {a : Answer T E}
    (hlaunch : ∀ s : System T E, s.launch t call = s.goTo t (.peeking s.current))
    (hobserve : ∀ generation, (l.holders l.current).observe generation call = some a) :
    Leads initializer t (l.doing t call .start) (l.done t call a) := by
  refine (leads_peeking hlaunch).trans (Leads.answer l.current fun s hs => ?_)
  have hsame : (s.holder l.current).observe s.generation call = some a := by
    rw [← hobserve s.generation, ← hs]
    cases call <;> rfl
  rw [System.advance, hsame]

/-- A call that is to replace the current holder reads whether that is cancelled. -/
theorem leads_testing (initializer : Nat → Routine T E)
    (hlaunch : ∀ s : System T E, s.launch t call = s.goTo t (.testing s.current)) :
    Leads initializer t (l.doing t call .start)
      (l.doing t call (.swapping l.current (l.holders l.current).isCancelled)) := by
  have hlaunched : Leads initializer t (l.doing t call .start)
      (l.doing t call (.testing l.current)) := by
    refine Leads.advance fun s hs => ?_
    have hcurrent : s.current = l.current := congrArg Lineage.current hs
    rw [System.advance, hlaunch, hcurrent]
    exact goTo_doing hs _
  refine hlaunched.trans (Leads.goTo l.current fun s hs => ?_)
  rw [← hs]
  rfl

/-- A call that is to replace the current holder finds the reference cancelled. -/
theorem leads_tooLate
    (hlaunch : ∀ s : System T E, s.launch t call = s.goTo t (.testing s.current))
    (hcancelled : (l.holders l.current).isCancelled = true) :
    Leads initializer t (l.doing t call .start) (l.done t call (System.tooLate call)) := by
  have htested := leads_testing (l := l) initializer hlaunch
  rw [hcancelled] at htested
  have hkept : Leads initializer t (l.doing t call (.swapping l.current true))
      (l.doing t call (.swapped l.current)) := by
    refine Leads.advance fun s hs => ?_
    have hcurrent : s.current = l.current := congrArg Lineage.current hs
    rw [System.advance, if_pos hcurrent, if_pos rfl]
    exact goTo_doing hs _
  refine htested.trans (hkept.trans (Leads.answer l.current fun s hs => ?_))
  have hcancelled' : (s.holder l.current).isCancelled = true := by
    rw [← hcancelled, ← hs]
    rfl
  rw [System.advance, if_pos hcancelled']

theorem leads_swapping
    (hlaunch : ∀ s : System T E, s.launch t call = s.goTo t (.testing s.current))
    (hlive : (l.holders l.current).isCancelled = false) (hinstalled : l.current < l.installed) :
    Leads initializer t (l.doing t call .start)
      ((l.install (System.replacement call)).doing t call
        (if call = .reset then .counting l.current else .retiring l.current)) := by
  have htested := leads_testing (l := l) initializer hlaunch
  rw [hlive] at htested
  have hswapped : Leads initializer t (l.doing t call (.swapping l.current false))
      ((l.install (System.replacement call)).doing t call (.swapped l.current)) := by
    refine Leads.advance fun s hs => ?_
    have hcurrent : s.current = l.current := congrArg Lineage.current hs
    have hbare : (System.replacement call : Holder T E).bare = System.replacement call := by
      cases call <;> rfl
    have hinstall : (s.install (System.replacement call)).lineage =
        (l.install (System.replacement call)).doing t call (.swapping l.current false) := by
      rw [s.lineage_install, hbare, hs]
      rfl
    rw [System.advance, if_pos hcurrent]
    exact goTo_doing hinstall _
  refine htested.trans (hswapped.trans (Leads.goTo l.current fun s hs => ?_))
  have hsame : (l.install (System.replacement call)).holders l.current = l.holders l.current :=
    l.holders_set_of_ne _ (Nat.ne_of_lt hinstalled)
  have hlive' : (s.holder l.current).isCancelled = false := by
    rw [← hlive, ← hsame, ← hs]
    rfl
  rw [System.advance, hlive']
  rfl

theorem leads_retiring :
    Leads initializer t (l.doing t call (.retiring h))
      ((l.set h { l.holders h with retired := true }).doing t call
        (.draining h (System.afterRetiring call h))) :=
  Leads.advance fun _ hs =>
    updateHolder_doing h hs (fun holder => { holder with retired := true }) (fun _ => rfl) _

end Steps

end SharedCells.Lazy
