import SharedCells.Proofs.Lazy.Lone.Turns
import SharedCells.Proofs.Lazy.Waiting.Served

/-!
# Waiters that are overlooked

A thread registers once when it begins to wait for a holder, and whoever wakes the waiters takes
the whole list. A thread that is woken then, finds no reason to leave and parks again is on no list
any more, so the next wake-up passes it by: it is `Overlooked`. This happens when a holder is
retired while its initializer runs, or when a claim is handed back and taken again, to a thread that
does not leave a retired holder.

`run_heeded` says that it happens in no other way: a thread that is parked is registered, or a
wake-up for it is on its way, or it is overlooked. `waiter_overlooked` is a run in which a thread is
overlooked and stays parked for good.
-/

namespace SharedCells.Lazy

variable {T E : Type}

/-! ## Wake-ups that come too early -/

section Histories

variable (initializer : Nat → Routine T E) (s : System T E) (t : Nat)

/-- In the schedule so far a thread was taken off the list of waiters while the holder was not
complete, and it has not stopped waiting since. -/
inductive Called : List Turn → Prop
  | taken {schedule : List Turn} {turn : Turn} {u : Nat} {call : Call} {after : After T E}
    {rest : List (Frame T E)} :
    ((s.run initializer schedule).thread u).frames = ⟨call, .draining 0 after⟩ :: rest →
      ((s.run initializer (schedule ++ [turn])).thread u).frames =
        ⟨call, .waking ((s.run initializer schedule).holder 0).waiters after⟩ :: rest →
      t ∈ ((s.run initializer schedule).holder 0).waiters →
      ((s.run initializer schedule).holder 0).phase ≠ .complete →
      (s.run initializer (schedule ++ [turn])).WaitsFor t 0 → Called (schedule ++ [turn])
  | waits {schedule : List Turn} {turn : Turn} : Called schedule →
    (s.run initializer (schedule ++ [turn])).WaitsFor t 0 → Called (schedule ++ [turn])

/-- The thread has passed a park after that, and it has not stopped waiting since. -/
inductive Overlooked : List Turn → Prop
  | resumes {schedule : List Turn} {call : Call} {rest : List (Frame T E)} :
    Called initializer s t schedule →
      ((s.run initializer schedule).thread t).frames = ⟨call, .parked 0⟩ :: rest →
      ((s.run initializer schedule).thread t).status.permit = true →
      (s.run initializer (schedule ++ [.thread t])).WaitsFor t 0 →
        Overlooked (schedule ++ [.thread t])
  | waits {schedule : List Turn} {turn : Turn} : Overlooked schedule →
    (s.run initializer (schedule ++ [turn])).WaitsFor t 0 → Overlooked (schedule ++ [turn])

/-- A thread that waits is registered until the holder is complete, or it was called and the
wake-up is on its way, or it is overlooked. -/
def Heard (schedule : List Turn) : Prop :=
  (((s.run initializer schedule).holder 0).phase ≠ .complete →
      t ∈ ((s.run initializer schedule).holder 0).waiters) ∨
    Called initializer s t schedule ∧ (s.run initializer schedule).roster.Notified 0 t ∨
      Overlooked initializer s t schedule

/-- What a thread may count on that has looked for the outcome without success. -/
def Woken (schedule : List Turn) : Prop :=
  ((s.run initializer schedule).holder 0).phase = .complete →
    (s.run initializer schedule).roster.Notified 0 t ∨ Overlooked initializer s t schedule

/-- What the innermost call of a thread may count on. -/
def Heeds (schedule : List Turn) : Stage T E → Prop
  | .watching _ => Heard initializer s t schedule
  | .watchingRetired _ | .watchingStatus _ | .parked _ =>
    Heard initializer s t schedule ∧ Woken initializer s t schedule
  | _ => True

end Histories

section Steps

variable {initializer : Nat → Routine T E} {source : Option T} {s : System T E} {t : Nat}
  {schedule : List Turn} {turn : Turn} {call : Call} {stage : Stage T E} {rest : List (Frame T E)}

theorem run_snoc : s.run initializer (schedule ++ [turn]) =
    (s.run initializer schedule).step initializer turn :=
  s.run_append schedule [turn]

theorem heeds_of_idle (h : stage.Idle) : Heeds initializer s t schedule stage := by
  cases stage with
  | watching | watchingRetired | watchingStatus | parked => exact h.elim
  | _ => trivial

theorem Called.waitsFor (h : Called initializer s t schedule) :
    (s.run initializer schedule).WaitsFor t 0 := by
  cases h with
  | taken _ _ _ _ hwaits | waits _ hwaits => exact hwaits

theorem Overlooked.waitsFor (h : Overlooked initializer s t schedule) :
    (s.run initializer schedule).WaitsFor t 0 := by
  cases h with
  | resumes _ _ _ hwaits | waits _ hwaits => exact hwaits

/-! ## Other threads -/

section Others

variable (hinv : (s.run initializer schedule).outline.Inv initializer source)
  (hinstalled : 0 < (s.run initializer schedule).installed)
  (hstirs : Stirs (s.run initializer schedule).roster turn.mover
    (s.run initializer (schedule ++ [turn])).roster)
  (hne : t ≠ turn.mover) (hwaits : (s.run initializer (schedule ++ [turn])).WaitsFor t 0)

include hinv hinstalled hstirs hne

theorem notified_of_ne (h : (s.run initializer schedule).roster.Notified 0 t) :
    (s.run initializer (schedule ++ [turn])).roster.Notified 0 t := by
  refine h.stirs hstirs (fun v hv => ?_) hne hinstalled
  have hframes := (hinv.moves turn).frames_of_ne hv
  rwa [← run_snoc] at hframes

include hwaits

theorem Heard.of_ne (h : Heard initializer s t schedule) :
    Heard initializer s t (schedule ++ [turn]) := by
  have hnotified := notified_of_ne hinv hinstalled hstirs hne
  rcases h with hlisted | ⟨hcalled, hnotified'⟩ | hoverlooked
  · -- The thread stays on the list, or whoever takes the list is about to wake it.
    by_cases hcomplete : ((s.run initializer schedule).holder 0).phase = .complete
    · have hcomplete' := (hinv.moves turn).complete hinv.owned hcomplete
      rw [← run_snoc] at hcomplete'
      exact Or.inl fun hno => absurd hcomplete' hno
    · rcases hstirs.waiters_of_ne hne hinstalled (hlisted hcomplete) with
        hlisted' | ⟨call, after, rest, hf, hf'⟩
      · exact Or.inl fun _ => hlisted'
      · exact Or.inr (Or.inl ⟨.taken hf hf' (hlisted hcomplete) hcomplete hwaits,
          .waking hf' (hlisted hcomplete)⟩)
  · exact Or.inr (Or.inl ⟨.waits hcalled hwaits, hnotified hnotified'⟩)
  · exact Or.inr (Or.inr (.waits hoverlooked hwaits))

/-- Whoever makes the holder complete wakes the threads that are registered. -/
theorem Woken.of_ne (h : Woken initializer s t schedule)
    (hheard : Heard initializer s t schedule) : Woken initializer s t (schedule ++ [turn]) := by
  intro hcomplete'
  have hnotified := notified_of_ne hinv hinstalled hstirs hne
  have hmoves := hinv.moves turn
  rw [← run_snoc] at hmoves
  by_cases hcomplete : ((s.run initializer schedule).holder 0).phase = .complete
  · exact (h hcomplete).imp hnotified fun hoverlooked => .waits hoverlooked hwaits
  · obtain ⟨call, after, rest, hf'⟩ := (hmoves.completed hcomplete').resolve_left hcomplete
    rcases hheard with hlisted | ⟨-, hnotified'⟩ | hoverlooked
    · exact Or.inl (.draining hf' (hstirs.waiters_of_draining hf' ▸ hlisted hcomplete))
    · exact Or.inl (hnotified hnotified')
    · exact Or.inr (.waits hoverlooked hwaits)

end Others

/-! ## The thread that moves -/

theorem phase_of_put {s s' : System T E} {frames : List (Frame T E)}
    (hlineage : s'.roster.lineage = s.roster.lineage.put t frames) :
    (s'.holder 0).phase = (s.holder 0).phase :=
  congrArg (fun l : Lineage T E => (l.holders 0).phase) hlineage

section Mover

variable {frames : List (Frame T E)}
  (hf : ((s.run initializer schedule).thread t).frames = ⟨call, stage⟩ :: rest)
  (hstage : stage.Waits 0)
  (hlineage : (s.run initializer (schedule ++ [turn])).roster.lineage =
    (s.run initializer schedule).roster.lineage.put t frames)
  (hwaiters : (s.run initializer (schedule ++ [turn])).roster.waiters =
    (s.run initializer schedule).roster.waiters)
  (hpermit : (s.run initializer (schedule ++ [turn])).roster.permit =
    (s.run initializer schedule).roster.permit)
  (hwaits : (s.run initializer (schedule ++ [turn])).WaitsFor t 0)

include hf hstage hlineage hwaiters hpermit hwaits

theorem Heard.looks (h : Heard initializer s t schedule) :
    Heard initializer s t (schedule ++ [turn]) := by
  rcases h with hlisted | ⟨hcalled, hnotified⟩ | hoverlooked
  · have hsame : ((s.run initializer (schedule ++ [turn])).holder 0).waiters =
        ((s.run initializer schedule).holder 0).waiters := congrFun hwaiters 0
    exact Or.inl fun hcomplete => hsame ▸ hlisted (phase_of_put hlineage ▸ hcomplete)
  · exact Or.inr (Or.inl
      ⟨.waits hcalled hwaits, hnotified.looks hf hstage hlineage hwaiters hpermit⟩)
  · exact Or.inr (Or.inr (.waits hoverlooked hwaits))

theorem Woken.looks (h : Woken initializer s t schedule) :
    Woken initializer s t (schedule ++ [turn]) := by
  intro hcomplete
  rcases h (phase_of_put hlineage ▸ hcomplete) with hnotified | hoverlooked
  · exact Or.inl (hnotified.looks hf hstage hlineage hwaiters hpermit)
  · exact Or.inr (.waits hoverlooked hwaits)

end Mover

/-- A thread that stays where it is, or that finds no reason to leave, may count on what it counted
on before. -/
theorem heeds_looks {stage' : Stage T E}
    (hf : ((s.run initializer schedule).thread t).frames = ⟨call, stage⟩ :: rest)
    (hf' : ((s.run initializer (schedule ++ [turn])).thread t).frames = ⟨call, stage'⟩ :: rest)
    (hstage : stage' = stage ∨ stage = .watching 0 ∧ stage' = .watchingRetired 0 ∧
        ((s.run initializer schedule).holder 0).phase = .resolving ∨
      stage = .watchingRetired 0 ∧ stage' = .watchingStatus 0 ∨
        stage = .watchingStatus 0 ∧ stage' = .parked 0)
    (hzero : ∀ k, stage.Waits k → k = 0)
    (hlineage : (s.run initializer (schedule ++ [turn])).roster.lineage =
      (s.run initializer schedule).roster.lineage.put t (⟨call, stage'⟩ :: rest))
    (hwaiters : (s.run initializer (schedule ++ [turn])).roster.waiters =
      (s.run initializer schedule).roster.waiters)
    (hpermit : (s.run initializer (schedule ++ [turn])).roster.permit =
      (s.run initializer schedule).roster.permit)
    (h : Heeds initializer s t schedule stage) :
    Heeds initializer s t (schedule ++ [turn]) stage' := by
  have hwaits : stage'.Waits 0 → (s.run initializer (schedule ++ [turn])).WaitsFor t 0 :=
    fun hstage => ⟨call, stage', rest, hf', hstage⟩
  have hheard : stage.Waits 0 → stage'.Waits 0 → Heard initializer s t schedule →
      Heard initializer s t (schedule ++ [turn]) := fun hold hnew hheard =>
    hheard.looks hf hold hlineage hwaiters hpermit (hwaits hnew)
  have hwoken : stage.Waits 0 → stage'.Waits 0 → Woken initializer s t schedule →
      Woken initializer s t (schedule ++ [turn]) := fun hold hnew hwoken =>
    hwoken.looks hf hold hlineage hwaiters hpermit (hwaits hnew)
  rcases hstage with rfl | ⟨rfl, rfl, hresolving⟩ | ⟨rfl, rfl⟩ | ⟨rfl, rfl⟩
  · cases stage' with
    | watching k =>
      obtain rfl := hzero k rfl
      exact hheard rfl rfl h
    | watchingRetired k | watchingStatus k | parked k =>
      obtain rfl := hzero k rfl
      exact h.imp (hheard rfl rfl) (hwoken rfl rfl)
    | _ => trivial
  · -- It has found the holder being resolved, so there is no outcome to be woken for.
    refine ⟨hheard rfl rfl h, fun hcomplete => ?_⟩
    cases ((phase_of_put hlineage).symm.trans hcomplete).symm.trans hresolving
  · exact h.imp (hheard rfl rfl) (hwoken rfl rfl)
  · exact h.imp (hheard rfl rfl) (hwoken rfl rfl)

/-- A thread that wakes up without a reason keeps its permit, if it had one. -/
theorem Heard.wakes (h : Heard initializer s t schedule)
    (hf : ((s.run initializer schedule).thread t).frames = ⟨call, .parked 0⟩ :: rest) :
    Heard initializer s t (schedule ++ [.wakes t]) := by
  have hstep : s.run initializer (schedule ++ [.wakes t]) =
      (s.run initializer schedule).goTo t (.watching 0) := by
    rw [run_snoc, System.step, hf]
  have hlineage : (s.run initializer (schedule ++ [.wakes t])).roster.lineage =
      (s.run initializer schedule).roster.lineage.put t (⟨call, .watching 0⟩ :: rest) := by
    rw [hstep]
    exact System.lineage_goTo _ hf _
  refine h.looks hf rfl hlineage ?_ ?_ ⟨call, _, rest, Lineage.frames_of_put hlineage, rfl⟩
  · rw [hstep, System.waiters_goTo]
  · rw [hstep, System.permit_goTo]

/-- A thread that passes a park has used its permit up. -/
theorem Heard.resumes (h : Heard initializer s t schedule)
    (hf : ((s.run initializer schedule).thread t).frames = ⟨call, .parked 0⟩ :: rest)
    (hf' : ((s.run initializer (schedule ++ [.thread t])).thread t).frames =
      ⟨call, .watching 0⟩ :: rest) : Heard initializer s t (schedule ++ [.thread t]) := by
  have hwaits : (s.run initializer (schedule ++ [.thread t])).WaitsFor t 0 := ⟨_, _, _, hf', rfl⟩
  have hstep : s.run initializer (schedule ++ [.thread t]) =
      (s.run initializer schedule).advance initializer t call (.parked 0) := by
    rw [run_snoc, System.step, System.stepThread, hf]
  cases hpark : ((s.run initializer schedule).thread t).status.park? with
  | none =>
    rw [hstep, System.advance, hpark, hf] at hf'
    cases hf'
  | some status =>
    have hpermit : ((s.run initializer schedule).thread t).status.permit = true := by
      rw [Status.park?] at hpark
      by_contra hno
      rw [if_neg hno] at hpark
      cases hpark
    have hholder : (s.run initializer (schedule ++ [.thread t])).holder 0 =
        (s.run initializer schedule).holder 0 := by
      rw [hstep, System.advance, hpark]
      rfl
    rcases h with hlisted | ⟨hcalled, -⟩ | hoverlooked
    · exact Or.inl (by rwa [hholder])
    · exact Or.inr (Or.inr (.resumes hcalled hf hpermit hwaits))
    · exact Or.inr (Or.inr (.waits hoverlooked hwaits))

/-- A thread is parked no more because it has passed the park, or without a reason. -/
theorem Heard.returns (h : Heard initializer s t schedule)
    (hf : ((s.run initializer schedule).thread t).frames = ⟨call, .parked 0⟩ :: rest)
    (hf' : ((s.run initializer (schedule ++ [turn])).thread t).frames =
      ⟨call, .watching 0⟩ :: rest)
    (hmover : turn.mover = t) : Heard initializer s t (schedule ++ [turn]) := by
  cases turn with
  | wakes u =>
    obtain rfl : u = t := hmover
    exact h.wakes hf
  | thread u =>
    obtain rfl : u = t := hmover
    exact h.resumes hf hf'
  | claimFails u =>
    obtain rfl : u = t := hmover
    rw [run_snoc, System.step, hf] at hf'
    cases hf.symm.trans hf'
  | opens gate =>
    rw [run_snoc] at hf'
    cases hf.symm.trans hf'

/-- A thread registers with the one holder that there is, and waits for that. -/
theorem Stage.Fits.zero {published : Option (Outcome T E)} {armed : Bool} {k : Nat}
    (h : stage.Fits initializer source published armed call)
    (hstage : stage = .registering k ∨ stage.Waits k) : k = 0 := by
  rcases hstage with rfl | hwaits
  · exact h.1
  · cases stage with
    | watching k' | watchingRetired k' | watchingStatus k' | parked k' | leaving k' wake =>
      obtain rfl : k' = k := hwaits
      exact h.1
    | _ => exact hwaits.elim

/-- What the thread that moves may count on afterwards. -/
theorem heeds_mover (hinv : (s.run initializer schedule).outline.Inv initializer source)
    (hstirs : Stirs (s.run initializer schedule).roster t
      (s.run initializer (schedule ++ [turn])).roster)
    (hmover : turn.mover = t)
    (hheeds : ∀ call stage rest, ((s.run initializer schedule).thread t).frames =
      ⟨call, stage⟩ :: rest → Heeds initializer s t schedule stage)
    (hf' : ((s.run initializer (schedule ++ [turn])).thread t).frames = ⟨call, stage⟩ :: rest) :
    Heeds initializer s t (schedule ++ [turn]) stage := by
  -- A roster that stays is an index of `Stirs`, so both are named first.
  generalize hR : (s.run initializer schedule).roster = R at hstirs
  generalize hR' : (s.run initializer (schedule ++ [turn])).roster = R' at hstirs
  have hzero : ∀ {call stage rest k}, R.lineage.frames t = ⟨call, stage⟩ :: rest →
      stage = .registering k ∨ stage.Waits k → k = 0 := by
    intro call stage rest k hf hstage
    subst hR
    exact (hinv.standing.head hf).2.zero hstage
  have hframes' : R'.lineage.frames t = ⟨call, stage⟩ :: rest := by
    subst hR'
    exact hf'
  cases hstirs with
  | stays =>
    subst hR
    have hlineage : (s.run initializer (schedule ++ [turn])).roster.lineage =
        (s.run initializer schedule).roster.lineage.put t (⟨call, stage⟩ :: rest) := by
      rw [hR', ← hframes', Lineage.put, Function.update_eq_self]
    exact heeds_looks hframes' hf' (Or.inl rfl) (fun k hwaits => hzero hframes' (Or.inr hwaits))
      hlineage (congrArg Roster.waiters hR') (congrArg Roster.permit hR') (hheeds _ _ _ hframes')
  | rests _ hrests | installs _ hrests => exact heeds_of_idle (hrests _ _ hframes')
  | leaves _ hrests => exact heeds_of_idle (hrests _ _ hframes')
  | readies _ _ _ hf₁ | drains _ hf₁ | wakes _ hf₁ | departs _ _ hf₁ =>
    cases hframes'.symm.trans hf₁
    trivial
  | queues hf₀ _ hlineage =>
    cases (Lineage.frames_of_put hlineage).symm.trans hframes'
    trivial
  | registers hf₀ hf₁ hwaiters =>
    cases hframes'.symm.trans hf₁
    obtain rfl := hzero hf₀ (Or.inl rfl)
    subst hR hR'
    refine Or.inl fun _ => ?_
    show t ∈ (s.run initializer (schedule ++ [turn])).roster.waiters 0
    rw [hwaiters, Function.update_self]
    exact List.mem_append_right _ (List.mem_singleton_self t)
  | returns hf₀ hf₁ =>
    cases hframes'.symm.trans hf₁
    obtain rfl := hzero hf₀ (Or.inr rfl)
    subst hR hR'
    exact (hheeds _ _ _ hf₀).1.returns hf₀ hf₁ hmover
  | looks hf₀ hstage hlineage hwaiters hpermit =>
    cases (Lineage.frames_of_put hlineage).symm.trans hframes'
    have hzero₀ := fun k hwaits => hzero (k := k) hf₀ (Or.inr hwaits)
    subst hR hR'
    refine heeds_looks hf₀ hf' (Or.inr ?_) hzero₀ hlineage hwaiters hpermit (hheeds _ _ _ hf₀)
    rcases hstage with ⟨rfl, rfl, hresolving⟩ | ⟨rfl, rfl, -⟩ | ⟨rfl, rfl⟩
    · obtain rfl := hzero₀ _ rfl
      exact Or.inl ⟨rfl, rfl, hresolving⟩
    · obtain rfl := hzero₀ _ rfl
      exact Or.inr (Or.inl ⟨rfl, rfl⟩)
    · obtain rfl := hzero₀ _ rfl
      exact Or.inr (Or.inr ⟨rfl, rfl⟩)

/-! ## All turns -/

theorem heeds_of_ne (hinv : (s.run initializer schedule).outline.Inv initializer source)
    (hinstalled : 0 < (s.run initializer schedule).installed)
    (hstirs : Stirs (s.run initializer schedule).roster turn.mover
      (s.run initializer (schedule ++ [turn])).roster)
    (hne : t ≠ turn.mover)
    (hf : ((s.run initializer schedule).thread t).frames = ⟨call, stage⟩ :: rest)
    (hf' : ((s.run initializer (schedule ++ [turn])).thread t).frames = ⟨call, stage⟩ :: rest)
    (h : Heeds initializer s t schedule stage) :
    Heeds initializer s t (schedule ++ [turn]) stage := by
  have hzero : ∀ {k}, stage.Waits k → k = 0 := fun hstage =>
    (hinv.standing.head hf).2.zero (Or.inr hstage)
  have hwaits : stage.Waits 0 → (s.run initializer (schedule ++ [turn])).WaitsFor t 0 :=
    fun hstage => ⟨call, stage, rest, hf', hstage⟩
  cases stage with
  | watching k =>
    obtain rfl := hzero rfl
    exact Heard.of_ne hinv hinstalled hstirs hne (hwaits rfl) h
  | watchingRetired k | watchingStatus k | parked k =>
    obtain rfl := hzero rfl
    exact ⟨Heard.of_ne hinv hinstalled hstirs hne (hwaits rfl) h.1,
      Woken.of_ne hinv hinstalled hstirs hne (hwaits rfl) h.2 h.1⟩
  | _ => trivial

theorem Outline.Barred.not_waits (h : s.outline.Barred) {k : Nat} : ¬s.WaitsFor t k := by
  rintro ⟨call, stage, rest, hf, hwaits⟩
  have hspared := (h.head hf).2
  cases stage with
  | watching | watchingRetired | watchingStatus | parked | leaving => exact hspared.elim
  | _ => exact hwaits.elim

theorem Outline.Nested.stirs (h : s.outline.Nested) (turn : Turn) :
    Stirs s.roster turn.mover (s.step initializer turn).roster := by
  refine step_stirs initializer turn fun f rest hf g hg => h turn.mover g ?_
  show g ∈ (s.thread turn.mover).frames.tail
  rwa [hf]

/-- What every thread may count on after every schedule. -/
theorem heeds_run (h : Lone initializer s) (hframes : ∀ t, (s.thread t).frames = [])
    (hduring : ∀ run, ∀ c ∈ (initializer run).during, c.Keeps) (schedule : List Turn)
    (hf : ((s.run initializer schedule).thread t).frames = ⟨call, stage⟩ :: rest) :
    Heeds initializer s t schedule stage := by
  induction schedule using List.reverseRecOn generalizing call stage rest with
  | nil => cases (hframes t).symm.trans hf
  | append_singleton schedule turn ih =>
    cases h.run hduring schedule with
    | barred hbarred =>
      rw [run_snoc] at hf
      have hspared := ((hbarred.step turn).head hf).2
      cases stage with
      | watching | watchingRetired | watchingStatus | parked => exact hspared.elim
      | _ => trivial
    | live hinv hnested hinstalled =>
      have hstirs : Stirs (s.run initializer schedule).roster turn.mover
          (s.run initializer (schedule ++ [turn])).roster := by
        rw [run_snoc]
        exact hnested.stirs turn
      by_cases hmover : turn.mover = t
      · exact heeds_mover hinv (hmover ▸ hstirs) hmover (fun call stage rest => ih) hf
      · have hsame := (hinv.moves turn).frames_of_ne (Ne.symm hmover)
        rw [← run_snoc] at hsame
        have hf₀ : ((s.run initializer schedule).thread t).frames = _ := hsame.symm.trans hf
        exact heeds_of_ne hinv hinstalled hstirs (Ne.symm hmover) hf₀ hf (ih hf₀)

/-! ## Who is on the list -/

/-- Whoever takes the list of waiters leaves nobody on it. -/
theorem Stirs.emptied {R R' : Roster T E} {k : Nat} {call' : Call} {after after' : After T E}
    {us : List Nat} {rest' : List (Frame T E)} (h : Stirs R t R')
    (hf : R.lineage.frames t = ⟨call, .draining k after⟩ :: rest)
    (hf' : R'.lineage.frames t = ⟨call', .waking us after'⟩ :: rest') : R'.waiters k = [] := by
  have hrests : ¬R.Rests t := fun hrests => hrests _ _ hf
  cases h with
  | drains hf₀ _ hwaiters =>
    cases hf.symm.trans hf₀
    rw [hwaiters, Function.update_self]
  | stays => cases hf.symm.trans hf'
  | rests hno | installs hno | readies hno => exact absurd hno hrests
  | wakes hf₀ | queues hf₀ | registers hf₀ | returns hf₀ | leaves hf₀ =>
    cases hf.symm.trans hf₀
  | looks hf₀ hstage =>
    cases hf.symm.trans hf₀
    rcases hstage with ⟨hno, -⟩ | ⟨hno, -⟩ | ⟨hno, -⟩ <;> cases hno
  | departs hf₀ hwaits =>
    cases hf.symm.trans hf₀
    exact hwaits.elim

section Unlisted

variable (h : Lone initializer s) (hduring : ∀ run, ∀ c ∈ (initializer run).during, c.Keeps)

include h hduring

/-- What holds of the turn after which a thread still waits. -/
theorem stirs_of_waitsFor (hwaits : (s.run initializer (schedule ++ [turn])).WaitsFor t 0) :
    ∃ source, (s.run initializer schedule).outline.Inv initializer source ∧
      Stirs (s.run initializer schedule).roster turn.mover
        (s.run initializer (schedule ++ [turn])).roster := by
  rw [run_snoc] at hwaits ⊢
  cases h.run hduring schedule with
  | barred hbarred => exact absurd hwaits (hbarred.step turn).not_waits
  | live hinv hnested => exact ⟨_, hinv, hnested.stirs turn⟩

/-- A thread that waits does not get on the list again. -/
theorem unlisted_snoc (hno : t ∉ ((s.run initializer schedule).holder 0).waiters)
    (hwaits : (s.run initializer schedule).WaitsFor t 0)
    (hwaits' : (s.run initializer (schedule ++ [turn])).WaitsFor t 0) :
    t ∉ ((s.run initializer (schedule ++ [turn])).holder 0).waiters := by
  intro hmem
  obtain ⟨-, -, hstirs⟩ := stirs_of_waitsFor h hduring hwaits'
  rcases hstirs.waiters_of_mem hmem with hmem' | ⟨rfl, call, rest, hf⟩
  · exact hno hmem'
  · obtain ⟨call', stage, rest', hf', hstage⟩ := hwaits
    cases hf.symm.trans hf'
    exact hstage

theorem Called.unlisted (hcalled : Called initializer s t schedule) :
    t ∉ ((s.run initializer schedule).holder 0).waiters := by
  induction hcalled with
  | @taken schedule turn u call after rest hf hf' hmem hcomplete hwaits =>
    obtain ⟨source, hinv, hstirs⟩ := stirs_of_waitsFor h hduring hwaits
    have hmover : u = turn.mover := by
      by_contra hne
      have hsame := (hinv.moves turn).frames_of_ne hne
      rw [← run_snoc] at hsame
      cases hf'.symm.trans (hsame.trans hf)
    subst hmover
    have hempty : ((s.run initializer (schedule ++ [turn])).holder 0).waiters = [] :=
      hstirs.emptied hf hf'
    exact hempty ▸ List.not_mem_nil
  | waits hcalled hwaits ih => exact unlisted_snoc h hduring ih hcalled.waitsFor hwaits

theorem Overlooked.unlisted (hoverlooked : Overlooked initializer s t schedule) :
    t ∉ ((s.run initializer schedule).holder 0).waiters := by
  induction hoverlooked with
  | resumes hcalled _ _ hwaits =>
    exact unlisted_snoc h hduring (hcalled.unlisted h hduring) hcalled.waitsFor hwaits
  | waits hoverlooked hwaits ih => exact unlisted_snoc h hduring ih hoverlooked.waitsFor hwaits

end Unlisted

/-! ## Wake-ups -/

/-- Whoever is about to wake the waiters and to answer an outcome has made the holder complete. -/
theorem Stirs.announces {R R' : Roster T E} {k : Nat} {o : Outcome T E} (h : Stirs R t R')
    (hf' : R'.lineage.frames t = ⟨call, .draining k (.answer (.outcome o))⟩ :: rest) :
    R' = R ∨ (R'.lineage.holders k).phase = .complete := by
  have hrests : ¬R'.Rests t := fun hrests => hrests _ _ hf'
  cases h with
  | stays => exact Or.inl rfl
  | rests _ hno | installs _ hno | leaves _ hno => exact absurd hno hrests
  | readies _ _ hafter hf₁ =>
    cases hf'.symm.trans hf₁
    rcases hafter with ⟨-, hno, -⟩ | ⟨o', -, -, hcomplete⟩ | ⟨-, hno, -⟩
    · cases hno
    · exact Or.inr hcomplete
    · cases call <;> cases hno
  | drains _ hf₁ | wakes _ hf₁ | registers _ hf₁ | returns _ hf₁ | departs _ _ hf₁ =>
    cases hf'.symm.trans hf₁
  | queues _ _ hlineage => cases hf'.symm.trans (Lineage.frames_of_put hlineage)
  | looks _ hstage hlineage =>
    cases hf'.symm.trans (Lineage.frames_of_put hlineage)
    rcases hstage with ⟨-, hno, -⟩ | ⟨-, hno, -⟩ | ⟨-, hno⟩ <;> cases hno

theorem complete_of_draining (h : Lone initializer s) (hframes : ∀ t, (s.thread t).frames = [])
    (hduring : ∀ run, ∀ c ∈ (initializer run).during, c.Keeps) (schedule : List Turn)
    {o : Outcome T E} (hf : ((s.run initializer schedule).thread t).frames =
      ⟨call, .draining 0 (.answer (.outcome o))⟩ :: rest) :
    ((s.run initializer schedule).holder 0).phase = .complete := by
  induction schedule using List.reverseRecOn generalizing call rest with
  | nil => cases (hframes t).symm.trans hf
  | append_singleton schedule turn ih =>
    rw [run_snoc] at hf ⊢
    cases h.run hduring schedule with
    | barred hbarred => cases ((hbarred.step turn).head hf).2.2.2
    | live hinv hnested =>
      have hmoves := hinv.moves turn
      have hkept : ((s.run initializer schedule).thread t).frames =
          ⟨call, .draining 0 (.answer (.outcome o))⟩ :: rest →
            (((s.run initializer schedule).step initializer turn).holder 0).phase = .complete :=
        fun hf₀ => hmoves.complete hinv.owned (ih hf₀)
      by_cases hmover : t = turn.mover
      · rcases (hmover ▸ hnested.stirs turn).announces hf with hsame | hcomplete
        · exact hkept ((congrArg (fun R : Roster T E => R.lineage.frames t) hsame).symm.trans hf)
        · exact hcomplete
      · exact hkept ((hmoves.frames_of_ne hmover).symm.trans hf)

/-- The waiters are woken before the holder is complete only by whoever hands its claim back or
retires the holder. -/
theorem early_of_draining (h : Lone initializer s) (hframes : ∀ t, (s.thread t).frames = [])
    (hduring : ∀ run, ∀ c ∈ (initializer run).during, c.Keeps) {k : Nat} {after : After T E}
    (hf : ((s.run initializer schedule).thread t).frames = ⟨call, .draining k after⟩ :: rest)
    (hearly : ((s.run initializer schedule).holder k).phase ≠ .complete) :
    after = .giveUp k ∨ call = .retire k := by
  cases h.run hduring schedule with
  | barred hbarred =>
    obtain ⟨rfl, hretire, -⟩ := (hbarred.head hf).2
    exact Or.inr hretire
  | live hinv =>
    obtain ⟨rfl, hafter⟩ := (hinv.standing.head hf).2
    cases after with
    | giveUp k =>
      obtain ⟨rfl, -⟩ := hafter
      exact Or.inl rfl
    | resolve k => exact hafter.elim
    | answer a =>
      cases a with
      | outcome o => exact absurd (complete_of_draining h hframes hduring schedule hf) hearly
      | done => exact Or.inr hafter
      | _ => exact hafter.elim

/-- Whoever wakes threads gives each of them a permit. -/
theorem permit_waking {u : Nat} {us : List Nat} {after : After T E}
    (hf : (s.thread u).frames = ⟨call, .waking us after⟩ :: rest)
    (ht : t ∈ us ∨ s.roster.permit t = true) :
    (s.run initializer (List.replicate us.length (.thread u))).roster.permit t = true := by
  induction us generalizing s with
  | nil => exact ht.resolve_left List.not_mem_nil
  | cons v vs ih =>
    have hstep : s.step initializer (.thread u) =
        (s.updateStatus v Status.unpark).goTo u (.waking vs after) := by
      rw [System.step, System.stepThread, hf]
      rfl
    have hpermit : (s.step initializer (.thread u)).roster.permit =
        Function.update s.roster.permit v true := by
      rw [hstep, System.permit_goTo, System.permit_updateStatus]
      rfl
    refine ih (s := s.step initializer (.thread u)) ?_ ?_
    · rw [hstep]
      exact System.frames_goTo _ ((s.frames_updateStatus u v Status.unpark).trans hf) _
    · rw [hpermit, Function.update_apply]
      rcases ht with hmem | hyes
      · rcases List.mem_cons.1 hmem with rfl | hmem
        · exact Or.inr (if_pos rfl)
        · exact Or.inl hmem
      · right
        split
        · rfl
        · exact hyes

/-- Whoever takes the list of waiters gives everybody on it a permit. -/
theorem permit_draining {u k : Nat} {after : After T E}
    (hf : (s.thread u).frames = ⟨call, .draining k after⟩ :: rest)
    (ht : t ∈ (s.holder k).waiters) :
    ((s.run initializer
      (List.replicate ((s.holder k).waiters.length + 1) (.thread u))).thread t).status.permit =
        true := by
  have hstep : s.step initializer (.thread u) =
      (s.updateHolder k fun holder => { holder with waiters := [] }).goTo u
        (.waking (s.holder k).waiters after) := by
    rw [System.step, System.stepThread, hf]
    rfl
  have hf' : ((s.step initializer (.thread u)).thread u).frames =
      ⟨call, .waking (s.holder k).waiters after⟩ :: rest := by
    rw [hstep]
    exact System.frames_goTo _ hf _
  exact permit_waking hf' (Or.inl ht)

end Steps

/-! ## All schedules -/

/-- What threads may count on that wait for the one holder of a reference. -/
structure Heeded (initializer : Nat → Routine T E) (s : System T E) (schedule : List Turn) :
    Prop where
  /-- The next wake-up reaches a thread that is parked, unless the thread is overlooked. -/
  parked : ∀ t call k rest,
    ((s.run initializer schedule).thread t).frames = ⟨call, .parked k⟩ :: rest →
      t ∈ ((s.run initializer schedule).holder k).waiters ∨
        (s.run initializer schedule).roster.Notified k t ∨ Overlooked initializer s t schedule
  /-- So does the wake-up that comes when the holder is complete. -/
  completed : ∀ t call k rest,
    ((s.run initializer schedule).thread t).frames = ⟨call, .parked k⟩ :: rest →
      ((s.run initializer schedule).holder k).phase = .complete →
        (s.run initializer schedule).roster.Notified k t ∨ Overlooked initializer s t schedule
  /-- A thread that is overlooked still waits, but no wake-up will find it on the list. -/
  overlooked : ∀ t, Overlooked initializer s t schedule →
    (s.run initializer schedule).WaitsFor t 0 ∧
      t ∉ ((s.run initializer schedule).holder 0).waiters
  /-- The list of waiters is taken before the holder is complete only by whoever hands its claim
  back or retires the holder. -/
  early : ∀ u call k after rest,
    ((s.run initializer schedule).thread u).frames = ⟨call, .draining k after⟩ :: rest →
      ((s.run initializer schedule).holder k).phase ≠ .complete →
        after = .giveUp k ∨ call = .retire k
  /-- Whoever takes the list of waiters gives everybody on it a permit. -/
  wakes : ∀ u call k after rest,
    ((s.run initializer schedule).thread u).frames = ⟨call, .draining k after⟩ :: rest →
      ∀ t ∈ ((s.run initializer schedule).holder k).waiters,
        (((s.run initializer schedule).run initializer (List.replicate
          (((s.run initializer schedule).holder k).waiters.length + 1)
            (.thread u))).thread t).status.permit = true

/-- Whatever a holder has at first, whatever the calls on it and whatever the order of their
turns: a thread that is parked is registered, or a wake-up for it is on its way, or it is
overlooked. -/
theorem run_heeded (initializer : Nat → Routine T E) (origin : Origin T)
    (threads : Table (Thread T E))
    (hthreads : ∀ t, (threads.get t).frames = [] ∧ ∀ c ∈ (threads.get t).calls, c.Keeps)
    (hduring : ∀ run, ∀ c ∈ (initializer run).during, c.Keeps) (schedule : List Turn) :
    Heeded initializer (origin.system threads) schedule := by
  have hlone : Lone initializer (origin.system threads) := lone_start origin hthreads
  have hframes : ∀ t, ((origin.system threads : System T E).thread t).frames = [] := by
    cases origin <;> exact fun t => (hthreads t).1
  have hzero : ∀ {t call k rest},
      (((origin.system threads).run initializer schedule).thread t).frames =
        ⟨call, .parked k⟩ :: rest → k = 0 := by
    intro t call k rest hf
    cases hlone.run hduring schedule with
    | barred hbarred => exact absurd ⟨call, _, rest, hf, rfl⟩ hbarred.not_waits
    | live hinv => exact (hinv.standing.head hf).2.zero (Or.inr rfl)
  refine ⟨fun t call k rest hf => ?_, fun t call k rest hf hcomplete => ?_,
    fun t h => ⟨h.waitsFor, h.unlisted hlone hduring⟩,
    fun u call k after rest => early_of_draining hlone hframes hduring,
    fun u call k after rest hf t ht => permit_draining hf ht⟩
  · obtain rfl := hzero hf
    obtain ⟨hheard, hwoken⟩ := heeds_run hlone hframes hduring schedule hf
    rcases hheard with hlisted | ⟨-, hnotified⟩ | hoverlooked
    · by_cases hcomplete :
          (((origin.system threads).run initializer schedule).holder 0).phase = .complete
      · exact Or.inr (hwoken hcomplete)
      · exact Or.inl (hlisted hcomplete)
    · exact Or.inr (Or.inl hnotified)
    · exact Or.inr (Or.inr hoverlooked)
  · obtain rfl := hzero hf
    exact (heeds_run hlone hframes hduring schedule hf).2 hcomplete

/-- While one thread runs the initializer another one parks: it is registered, and the end of the
run wakes it. -/
theorem run_heeded_two_threads :
    let initializer : Nat → Routine Nat String := fun _ => ⟨[.tryGet], some "gate", .value 7⟩
    let threads : Table (Thread Nat String) :=
      ⟨.idle, [⟨[], [.force 0 false], {}⟩, ⟨[], [.force 0 true], {}⟩]⟩
    let turns := fun n t => List.replicate n (Turn.thread t)
    let schedule := turns 14 0 ++ turns 11 1
    let s := (Origin.initializer.system threads).run initializer schedule
    s.rests initializer 0 = true ∧ s.rests initializer 1 = true ∧ (s.holder 0).waiters = [1] ∧
      (s.run initializer (.opens "gate" :: turns 20 0 ++ turns 20 1)).isIdle 1 = true ∧
      Heeded initializer (Origin.initializer.system threads) schedule := by
  refine ⟨by decide +kernel, by decide +kernel, by decide +kernel, by decide +kernel,
    run_heeded _ _ _ ?_ ?_ _⟩
  · intro t
    rcases t with _ | _ | t
    · exact ⟨rfl, by simp [Table.get, Call.Keeps]⟩
    · exact ⟨rfl, by simp [Table.get, Call.Keeps]⟩
    · exact ⟨rfl, by simp [Table.get, Thread.idle]⟩
  · intro run c hc
    rw [List.mem_singleton.1 hc]
    trivial

/-- A permit is all that may be on its way to a thread while every thread rests. -/
theorem permit_of_rests {initializer : Nat → Routine T E} {s : System T E} {k t : Nat}
    (hrests : (List.range s.threads.rows.length).all (s.rests initializer) = true)
    (hblank : s.threads.blank.frames.isEmpty = true) (h : s.roster.Notified k t) :
    (s.thread t).status.permit = true := by
  have hbetween : s.Between := by
    intro u f rest hf hmidway
    have hu : u < s.threads.rows.length := by
      by_contra hno
      rw [System.thread, Table.get_of_length_le (Nat.le_of_not_lt hno),
        List.isEmpty_iff.1 hblank] at hf
      cases hf
    have hrest := List.all_eq_true.1 hrests u (List.mem_range.2 hu)
    obtain ⟨call, stage⟩ := f
    rw [System.rests, hf] at hrest
    cases stage with
    | parked | running => exact hmidway
    | _ => cases hrest
  exact hbetween.permit h

/-- Whether a thread is parked in a wait for a holder. -/
def System.isParked (s : System T E) (t k : Nat) : Bool :=
  match (s.thread t).frames with
  | ⟨_, .parked h⟩ :: _ => decide (h = k)
  | _ => false

/-- The holder is retired while its initializer runs. The thread that waits for its outcome is woken
and parks again, on no list and with no wake-up on its way; when the initializer has ended, all
threads rest and that thread is still parked. -/
theorem waiter_overlooked :
    let initializer : Nat → Routine Nat String := fun _ => ⟨[], some "gate", .value 7⟩
    let threads : Table (Thread Nat String) :=
      ⟨.idle, [⟨[], [.force 0 false], {}⟩, ⟨[], [.retire 0], {}⟩, ⟨[], [.force 0 false], {}⟩]⟩
    let turns := fun n t => List.replicate n (Turn.thread t)
    let s := (Origin.initializer.system threads).run initializer
      (turns 10 0 ++ turns 11 2 ++ turns 10 1 ++ turns 6 2)
    let later := s.run initializer (.opens "gate" :: turns 20 0 ++ turns 20 2)
    s.isParked 2 0 = true ∧ (s.holder 0).phase = .resolving ∧
      2 ∉ (s.holder 0).waiters ∧ ¬s.roster.Notified 0 2 ∧
      (later.holder 0).phase = .complete ∧ (List.range 3).all (later.rests initializer) = true ∧
      later.isParked 2 0 = true := by
  intro initializer threads turns s later
  have hpermit : (s.thread 2).status.permit = false := by decide +kernel
  refine ⟨by decide +kernel, by decide +kernel, by decide +kernel, fun hnotified => ?_,
    by decide +kernel, by decide +kernel, by decide +kernel⟩
  have hrests : (List.range s.threads.rows.length).all (s.rests initializer) = true := by
    decide +kernel
  cases hpermit.symm.trans (permit_of_rests hrests (by decide +kernel) hnotified)

end SharedCells.Lazy
