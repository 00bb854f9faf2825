import SharedCells.Proofs.Lazy.Generations.Episodes

/-!
# Who waits, and who is to be woken

A `Roster` is a lineage with what it leaves out: which threads are registered with each holder,
and which have a permit for their next park. `Stirs` lists what one turn of a thread may do to
these, and `step_stirs` says that it does nothing else. A thread that is not about to wait or to
wake others is `Idle`, and its turns change nothing here but for permits that it gives.
-/

namespace SharedCells.Lazy

variable {T E : Type}

/-! ## Rosters -/

/-- What of a reference decides who waits. -/
structure Roster (T E : Type) where
  lineage : Lineage T E
  /-- The threads that are registered with a holder. -/
  waiters : Nat → List Nat
  /-- Whether the next park of a thread lets it pass. -/
  permit : Nat → Bool

def System.roster (s : System T E) : Roster T E where
  lineage := s.lineage
  waiters h := (s.holder h).waiters
  permit t := (s.thread t).status.permit

/-- No thread at such a stage is registered anywhere, and it wakes nobody. -/
def Stage.Idle : Stage T E → Prop
  | registering _ | watching _ | watchingRetired _ | watchingStatus _ | parked _ | leaving _ _
  | draining _ _ => False
  | waking threads _ => threads = []
  | _ => True

/-- The innermost call of a thread, if it makes one, is idle. -/
def Roster.Rests (R : Roster T E) (t : Nat) : Prop :=
  ∀ f rest, R.lineage.frames t = f :: rest → f.stage.Idle

/-- The thread was registered when it came to such a stage. -/
def Stage.Waits (h : Nat) : Stage T E → Prop
  | watching h' | watchingRetired h' | watchingStatus h' | parked h' | leaving h' _ => h' = h
  | _ => False

theorem Stage.Waits.eq {stage : Stage T E} {h h' : Nat} (hwaits : stage.Waits h)
    (hwaits' : stage.Waits h') : h = h' := by
  cases stage with
  | watching k | watchingRetired k | watchingStatus k | parked k | leaving k wake =>
    exact hwaits.symm.trans hwaits'
  | _ => exact hwaits.elim

theorem Stage.Idle.not_waits {stage : Stage T E} (hidle : stage.Idle) (h : Nat) :
    ¬stage.Waits h := by
  intro hwaits
  cases stage with
  | watching k | watchingRetired k | watchingStatus k | parked k | leaving k wake => exact hidle
  | _ => exact hwaits

/-- What one turn of a thread may do to a roster. -/
inductive Stirs (R : Roster T E) (t : Nat) : Roster T E → Prop
  | stays : Stirs R t R
  /-- It neither waits nor wakes anybody, before or after, but it may give a permit. -/
  | rests {R' : Roster T E} : R.Rests t → R'.Rests t → R'.waiters = R.waiters →
    (∀ u, R.permit u = true → R'.permit u = true) → Stirs R t R'
  /-- A new holder has no waiters. -/
  | installs {R' : Roster T E} : R.Rests t → R'.Rests t →
    R'.waiters = Function.update R.waiters R.lineage.installed [] → R'.permit = R.permit →
      Stirs R t R'
  /-- It is about to take the list of waiters of a holder. -/
  | readies {R' : Roster T E} {call : Call} {h : Nat} {stage : Stage T E} {after : After T E}
    {rest : List (Frame T E)} : R.Rests t → R.lineage.frames t = ⟨call, stage⟩ :: rest →
      (stage = .handingBack h ∧ after = .giveUp h ∧
          (R'.lineage.holders h).phase = .unresolved ∨
        (∃ o, stage = .completing h o ∧ after = .answer (.outcome o) ∧
            (R'.lineage.holders h).phase = .complete) ∨
          stage = .retiring h ∧ after = System.afterRetiring call h ∧
            (R'.lineage.holders h).retired = true) →
        R'.lineage.frames t = ⟨call, .draining h after⟩ :: rest → R'.waiters = R.waiters →
          R'.permit = R.permit → Stirs R t R'
  | drains {R' : Roster T E} {call : Call} {h : Nat} {after : After T E}
    {rest : List (Frame T E)} : R.lineage.frames t = ⟨call, .draining h after⟩ :: rest →
      R'.lineage.frames t = ⟨call, .waking (R.waiters h) after⟩ :: rest →
        R'.waiters = Function.update R.waiters h [] → R'.permit = R.permit → Stirs R t R'
  | wakes {R' : Roster T E} {call : Call} {u : Nat} {us : List Nat} {after : After T E}
    {rest : List (Frame T E)} : R.lineage.frames t = ⟨call, .waking (u :: us) after⟩ :: rest →
      R'.lineage.frames t = ⟨call, .waking us after⟩ :: rest → R'.waiters = R.waiters →
        R'.permit = Function.update R.permit u true → Stirs R t R'
  /-- It finds that another thread resolves the holder. -/
  | queues {R' : Roster T E} {call : Call} {h : Nat} {rest : List (Frame T E)} :
    R.lineage.frames t = ⟨call, .choosing h⟩ :: rest →
      (R.lineage.holders h).phase = .resolving →
        R'.lineage = R.lineage.put t (⟨call, .registering h⟩ :: rest) → R'.waiters = R.waiters →
          R'.permit = R.permit → Stirs R t R'
  | registers {R' : Roster T E} {call : Call} {h : Nat} {rest : List (Frame T E)} :
    R.lineage.frames t = ⟨call, .registering h⟩ :: rest →
      R'.lineage.frames t = ⟨call, .watching h⟩ :: rest →
        R'.waiters = Function.update R.waiters h (R.waiters h ++ [t]) → R'.permit = R.permit →
          Stirs R t R'
  /-- It finds no reason to leave so far. -/
  | looks {R' : Roster T E} {call : Call} {h : Nat} {stage stage' : Stage T E}
    {rest : List (Frame T E)} : R.lineage.frames t = ⟨call, stage⟩ :: rest →
      (stage = .watching h ∧ stage' = .watchingRetired h ∧
          (R.lineage.holders h).phase = .resolving ∨
        stage = .watchingRetired h ∧ stage' = .watchingStatus h ∧
            ¬(call.policy.leaveOnRetire = true ∧ (R.lineage.holders h).retired = true) ∨
          stage = .watchingStatus h ∧ stage' = .parked h) →
        R'.lineage = R.lineage.put t (⟨call, stage'⟩ :: rest) → R'.waiters = R.waiters →
          R'.permit = R.permit → Stirs R t R'
  /-- It is parked no more. -/
  | returns {R' : Roster T E} {call : Call} {h : Nat} {rest : List (Frame T E)} :
    R.lineage.frames t = ⟨call, .parked h⟩ :: rest →
      R'.lineage.frames t = ⟨call, .watching h⟩ :: rest → R'.waiters = R.waiters →
        (∀ u, u ≠ t → R'.permit u = R.permit u) → Stirs R t R'
  /-- It has a reason to leave. -/
  | departs {R' : Roster T E} {call : Call} {h : Nat} {stage : Stage T E} {wake : Wake}
    {rest : List (Frame T E)} : R.lineage.frames t = ⟨call, stage⟩ :: rest → stage.Waits h →
      R'.lineage.frames t = ⟨call, .leaving h wake⟩ :: rest → R'.waiters = R.waiters →
        R'.permit = R.permit → Stirs R t R'
  | leaves {R' : Roster T E} {call : Call} {h : Nat} {wake : Wake} {rest : List (Frame T E)} :
    R.lineage.frames t = ⟨call, .leaving h wake⟩ :: rest → R'.Rests t →
      R'.waiters = Function.update R.waiters h ((R.waiters h).erase t) → R'.permit = R.permit →
        Stirs R t R'

/-! ## The parts of a step -/

namespace System

variable (s : System T E) {t : Nat} {call : Call} {stage : Stage T E} {rest : List (Frame T E)}

theorem frames_updateStatus (t u : Nat) (f : Status → Status) :
    ((s.updateStatus u f).thread t).frames = (s.thread t).frames :=
  congrFun (congrArg Lineage.frames (s.lineage_updateStatus u f)) t

theorem permit_updateThread (t : Nat) {f : Thread T E → Thread T E}
    (hf : (f (s.thread t)).status.permit = (s.thread t).status.permit) :
    (s.updateThread t f).roster.permit = s.roster.permit := by
  funext u
  have hget : (s.updateThread t f).thread u = if u = t then f (s.thread t) else s.thread u :=
    Table.get_update ..
  simp only [roster, hget]
  split
  · rename_i hu
    rw [hu, hf]
  · rfl

@[simp] theorem waiters_goTo (stage' : Stage T E) :
    (s.goTo t stage').roster.waiters = s.roster.waiters := rfl

@[simp] theorem permit_goTo (stage' : Stage T E) :
    (s.goTo t stage').roster.permit = s.roster.permit :=
  s.permit_updateThread t rfl

theorem roster_answer (a : Answer T E) : (s.answer t a).roster.waiters = s.roster.waiters ∧
    (s.answer t a).roster.permit = s.roster.permit := by
  rw [answer]
  split
  · exact ⟨rfl, rfl⟩
  · split <;> exact ⟨rfl, s.permit_updateThread t rfl⟩

@[simp] theorem waiters_answer (a : Answer T E) :
    (s.answer t a).roster.waiters = s.roster.waiters := (s.roster_answer a).1

@[simp] theorem permit_answer (a : Answer T E) :
    (s.answer t a).roster.permit = s.roster.permit := (s.roster_answer a).2

theorem permit_updateStatus (u : Nat) (f : Status → Status) :
    (s.updateStatus u f).roster.permit =
      Function.update s.roster.permit u (f (s.thread u).status).permit := by
  funext v
  have hget : (s.updateStatus u f).thread v =
      if v = u then { s.thread u with status := f (s.thread u).status } else s.thread v :=
    Table.get_update ..
  simp only [roster, hget, Function.update_apply]
  split <;> rfl

theorem waiters_updateHolder (h : Nat) (f : Holder T E → Holder T E) :
    (s.updateHolder h f).roster.waiters =
      Function.update s.roster.waiters h (f (s.holder h)).waiters := by
  funext k
  simp only [roster, holder_updateHolder, Function.update_apply]
  split <;> rfl

theorem waiters_updateHolder_of_eq {h : Nat} {f : Holder T E → Holder T E}
    (hf : (f (s.holder h)).waiters = (s.holder h).waiters) :
    (s.updateHolder h f).roster.waiters = s.roster.waiters := by
  rw [waiters_updateHolder, hf]
  exact Function.update_eq_self h s.roster.waiters

theorem waiters_install (holder : Holder T E) :
    (s.install holder).roster.waiters =
      Function.update s.roster.waiters s.installed holder.waiters := by
  funext k
  have hget : (s.install holder).holder k = if k = s.installed then holder else s.holder k :=
    Table.get_set ..
  simp only [roster, hget, Function.update_apply]
  split <;> rfl

theorem rests_of (hf : (s.thread t).frames = ⟨call, stage⟩ :: rest) (hidle : stage.Idle) :
    s.roster.Rests t := by
  intro f rest' hf'
  cases hf.symm.trans hf'
  exact hidle

theorem rests_goTo (hf : (s.thread t).frames = ⟨call, stage⟩ :: rest) {stage' : Stage T E}
    (hidle : stage'.Idle) : (s.goTo t stage').roster.Rests t := by
  exact rests_of _ (s.frames_goTo hf stage') hidle

/-- A call that made the one that ends runs the initializer. -/
theorem rests_answer (hf : (s.thread t).frames = ⟨call, stage⟩ :: rest)
    (hnested : ∀ f ∈ rest, f.Runs) (a : Answer T E) : (s.answer t a).roster.Rests t := by
  intro f rest' hf'
  have hframes : (s.answer t a).roster.lineage.frames t = rest := by
    obtain ⟨log, hreply, -⟩ := s.lineage.reply_eq t rest call a
    show (s.answer t a).lineage.frames t = rest
    rw [s.lineage_answer hf, hreply]
    exact Function.update_self ..
  rw [hframes] at hf'
  obtain ⟨h, purpose, run, calls, hrunning⟩ := hnested f (hf' ▸ List.mem_cons_self)
  rw [hrunning]
  trivial

end System

/-! ## Steps -/

section Steps

variable {initializer : Nat → Routine T E} {s s' : System T E} {t : Nat} {call : Call}
  {stage : Stage T E} {rest : List (Frame T E)}

/-- A change that concerns neither the calls of a thread nor who waits. -/
structure Unmoved (s s' : System T E) (t : Nat) : Prop where
  frames : (s'.thread t).frames = (s.thread t).frames
  waiters : s'.roster.waiters = s.roster.waiters
  permit : ∀ u, s.roster.permit u = true → s'.roster.permit u = true

theorem unmoved_self (s : System T E) (t : Nat) : Unmoved s s t := ⟨rfl, rfl, fun _ => id⟩

theorem unmoved_allocate (s : System T E) (t : Nat) : Unmoved s s.allocate.2 t :=
  ⟨rfl, rfl, fun _ => id⟩

theorem unmoved_updateStatus (s : System T E) (t u : Nat) {f : Status → Status}
    (hf : (s.thread u).status.permit = true → (f (s.thread u).status).permit = true) :
    Unmoved s (s.updateStatus u f) t := by
  refine ⟨s.frames_updateStatus t u f, rfl, fun v hv => ?_⟩
  rw [s.permit_updateStatus, Function.update_apply]
  split
  · rename_i hvu
    exact hf (hvu ▸ hv)
  · exact hv

theorem unmoved_updateHolder (s : System T E) (t h : Nat) {f : Holder T E → Holder T E}
    (hf : (f (s.holder h)).waiters = (s.holder h).waiters) :
    Unmoved s (s.updateHolder h f) t :=
  ⟨rfl, s.waiters_updateHolder_of_eq hf, fun _ => id⟩

theorem goTo_stirs (hf : (s.thread t).frames = ⟨call, stage⟩ :: rest) (hidle : stage.Idle)
    (hs : Unmoved s s' t) {stage' : Stage T E} (hidle' : stage'.Idle) :
    Stirs s.roster t (s'.goTo t stage').roster := by
  refine .rests (s.rests_of hf hidle) (s'.rests_goTo (hs.frames.trans hf) hidle') hs.waiters ?_
  rw [s'.permit_goTo]
  exact hs.permit

theorem answer_stirs (hf : (s.thread t).frames = ⟨call, stage⟩ :: rest) (hidle : stage.Idle)
    (hnested : ∀ f ∈ rest, f.Runs) (hs : Unmoved s s' t) (a : Answer T E) :
    Stirs s.roster t (s'.answer t a).roster := by
  refine .rests (s.rests_of hf hidle) (s'.rests_answer (hs.frames.trans hf) hnested a)
    ((s'.waiters_answer a).trans hs.waiters) ?_
  rw [s'.permit_answer]
  exact hs.permit

theorem giveUp_stirs (hf : (s.thread t).frames = ⟨call, stage⟩ :: rest) (hidle : stage.Idle)
    (hnested : ∀ f ∈ rest, f.Runs) (h : Nat) : Stirs s.roster t (s.giveUp t call h).roster := by
  cases call with
  | resolve k policy => exact answer_stirs hf hidle hnested (unmoved_self s t) _
  | _ => exact goTo_stirs hf hidle (unmoved_self s t) trivial

theorem launch_stirs (hf : (s.thread t).frames = ⟨call, .start⟩ :: rest)
    (hnested : ∀ f ∈ rest, f.Runs) : Stirs s.roster t (s.launch t call).roster := by
  have hself := unmoved_self s t
  cases call with
  | generation | isInterrupted => exact answer_stirs hf trivial hnested hself _
  | interrupt u | interruptSelf =>
    exact goTo_stirs hf trivial (unmoved_updateStatus s t _ id) trivial
  | interrupted =>
    exact answer_stirs hf trivial hnested (unmoved_updateStatus s t t id) _
  | _ => exact goTo_stirs hf trivial hself trivial

theorem conclude_stirs (hf : (s.thread t).frames = ⟨call, stage⟩ :: rest) (hidle : stage.Idle)
    (hnested : ∀ f ∈ rest, f.Runs) (h : Nat) (ending : Ending T E) (purpose : Purpose) :
    Stirs s.roster t (s.conclude t h ending purpose).roster := by
  cases purpose with
  | publish => exact goTo_stirs hf hidle (unmoved_allocate s t) trivial
  | consume => exact answer_stirs hf hidle hnested (unmoved_allocate s t) _

theorem readies_stirs (hf : (s.thread t).frames = ⟨call, stage⟩ :: rest) (hidle : stage.Idle)
    {h : Nat} {f : Holder T E → Holder T E}
    (hwaiters : (f (s.holder h)).waiters = (s.holder h).waiters) {after : After T E}
    (hafter : stage = .handingBack h ∧ after = .giveUp h ∧
        (f (s.holder h)).phase = .unresolved ∨
      (∃ o, stage = .completing h o ∧ after = .answer (.outcome o) ∧
          (f (s.holder h)).phase = .complete) ∨
        stage = .retiring h ∧ after = System.afterRetiring call h ∧
          (f (s.holder h)).retired = true) :
    Stirs s.roster t ((s.updateHolder h f).goTo t (.draining h after)).roster := by
  have hholder : ((s.updateHolder h f).goTo t (.draining h after)).roster.lineage.holders h =
      (f (s.holder h)).bare := by
    show ((s.updateHolder h f).goTo t (.draining h after)).lineage.holders h = _
    rw [s.lineage_goTo_updateHolder hf]
    exact s.lineage.holders_set_self ..
  refine .readies (s.rests_of hf hidle) hf ?_ ((s.updateHolder h f).frames_goTo hf _)
    (s.waiters_updateHolder_of_eq hwaiters) ((s.updateHolder h f).permit_goTo _)
  rw [hholder]
  exact hafter

variable (initializer) in
theorem roster_leaving {h : Nat} {wake : Wake}
    (hf : (s.thread t).frames = ⟨call, .leaving h wake⟩ :: rest) (hnested : ∀ f ∈ rest, f.Runs) :
    (s.advance initializer t call (.leaving h wake)).roster.Rests t ∧
      (s.advance initializer t call (.leaving h wake)).roster.waiters =
        Function.update s.roster.waiters h ((s.roster.waiters h).erase t) ∧
      (s.advance initializer t call (.leaving h wake)).roster.permit = s.roster.permit := by
  let left := s.updateHolder h fun holder => { holder with waiters := holder.waiters.erase t }
  have hleft : left.roster.waiters =
      Function.update s.roster.waiters h ((s.roster.waiters h).erase t) :=
    s.waiters_updateHolder h _
  have hgoes : ∀ stage' : Stage T E, stage'.Idle → (left.goTo t stage').roster.Rests t ∧
      (left.goTo t stage').roster.waiters = _ ∧ (left.goTo t stage').roster.permit = _ :=
    fun stage' hidle => ⟨left.rests_goTo hf hidle, hleft, left.permit_goTo stage'⟩
  have hends : ∀ a, (left.answer t a).roster.Rests t ∧
      (left.answer t a).roster.waiters = _ ∧ (left.answer t a).roster.permit = _ := fun a =>
    ⟨left.rests_answer hf hnested a, (left.waiters_answer a).trans hleft, left.permit_answer a⟩
  cases wake with
  | ready => exact hgoes _ trivial
  | interrupted => exact hends _
  | retired =>
    cases call with
    | resolve k policy => exact hends _
    | _ => exact hgoes _ trivial

theorem leaving_stirs {h : Nat} {wake : Wake}
    (hf : (s.thread t).frames = ⟨call, .leaving h wake⟩ :: rest) (hnested : ∀ f ∈ rest, f.Runs) :
    Stirs s.roster t (s.advance initializer t call (.leaving h wake)).roster := by
  obtain ⟨hrests, hwaiters, hpermit⟩ := roster_leaving initializer hf hnested
  exact .leaves hf hrests hwaiters hpermit

theorem waking_stirs {threads : List Nat} {after : After T E}
    (hf : (s.thread t).frames = ⟨call, .waking threads after⟩ :: rest)
    (hnested : ∀ f ∈ rest, f.Runs) :
    Stirs s.roster t (s.advance initializer t call (.waking threads after)).roster := by
  cases threads with
  | nil =>
    cases after with
    | giveUp h => exact giveUp_stirs hf rfl hnested h
    | resolve h => exact goTo_stirs hf rfl (unmoved_self s t) trivial
    | answer a => exact answer_stirs hf rfl hnested (unmoved_self s t) a
  | cons u us =>
    have hframes := (s.frames_updateStatus t u Status.unpark).trans hf
    exact .wakes hf (System.frames_goTo _ hframes _) rfl
      ((System.permit_goTo _ _).trans (s.permit_updateStatus u _))

theorem advance_stirs (hf : (s.thread t).frames = ⟨call, stage⟩ :: rest)
    (hnested : ∀ f ∈ rest, f.Runs) :
    Stirs s.roster t (s.advance initializer t call stage).roster := by
  have hself := unmoved_self s t
  cases stage with
  | start => exact launch_stirs hf hnested
  | peeking h =>
    simp only [System.advance]
    split
    · exact answer_stirs hf trivial hnested hself _
    · exact goTo_stirs hf trivial hself trivial
  | entering h =>
    simp only [System.advance]
    split
    · exact answer_stirs hf trivial hnested hself _
    · split <;> exact goTo_stirs hf trivial hself trivial
  | checking h =>
    simp only [System.advance]
    split
    · exact giveUp_stirs hf trivial hnested h
    · exact goTo_stirs hf trivial hself trivial
  | choosing h =>
    simp only [System.advance]
    split
    · exact goTo_stirs hf trivial hself trivial
    · rename_i hphase
      exact .queues hf hphase (s.lineage_goTo hf _) rfl (s.permit_goTo _)
    · exact goTo_stirs hf trivial hself trivial
    · exact answer_stirs hf trivial hnested hself _
  | claiming h =>
    simp only [System.advance]
    split
    · split <;> exact goTo_stirs hf trivial (unmoved_updateHolder s t h rfl) trivial
    · exact goTo_stirs hf trivial hself trivial
  | rechecking h =>
    simp only [System.advance]
    split <;> exact goTo_stirs hf trivial hself trivial
  | handingBack h => exact readies_stirs hf trivial rfl (Or.inl ⟨rfl, rfl, rfl⟩)
  | arming h =>
    simp only [System.advance]
    split
    · exact goTo_stirs hf trivial hself trivial
    · split
      · have hentered : Unmoved s (s.enter h).2 t :=
          ⟨rfl, (unmoved_updateHolder s t h rfl).waiters, fun _ => id⟩
        exact goTo_stirs hf trivial hentered trivial
      · exact goTo_stirs hf trivial (unmoved_allocate s t) trivial
  | running h purpose run calls =>
    cases calls with
    | cons c cs =>
      refine .rests (s.rests_of hf trivial) ?_ rfl ?_
      · intro f rest' hf'
        have hframes : f :: rest' = ⟨c, .start⟩ :: ⟨call, .running h purpose run cs⟩ :: rest :=
          hf'.symm.trans (Lineage.frames_of_put (s.lineage_begin_goTo hf _ c))
        cases hframes
        trivial
      · intro u hu
        have hbegin := (s.goTo t (.running h purpose run cs)).permit_updateThread t
          (f := fun thread => { thread with frames := ⟨c, .start⟩ :: thread.frames }) rfl
        exact (congrFun (hbegin.trans (s.permit_goTo _)) u).trans hu
    | nil =>
      simp only [System.advance]
      split
      · exact conclude_stirs hf trivial hnested h _ _
      · exact .stays
  | publishing h o => exact goTo_stirs hf trivial (unmoved_updateHolder s t h rfl) trivial
  | completing h o => exact readies_stirs hf trivial rfl (Or.inr (Or.inl ⟨o, rfl, rfl, rfl⟩))
  | draining h after =>
    exact .drains hf ((s.updateHolder h _).frames_goTo hf _) (s.waiters_updateHolder h _)
      (System.permit_goTo _ _)
  | waking threads after => exact waking_stirs hf hnested
  | registering h =>
    exact .registers hf ((s.updateHolder h _).frames_goTo hf _) (s.waiters_updateHolder h _)
      (System.permit_goTo _ _)
  | watching h =>
    simp only [System.advance]
    split
    · rename_i hphase
      exact .looks hf (Or.inl ⟨rfl, rfl, hphase⟩) (s.lineage_goTo hf _) rfl (s.permit_goTo _)
    · exact .departs hf rfl (s.frames_goTo hf _) rfl (s.permit_goTo _)
  | watchingRetired h =>
    simp only [System.advance]
    split
    · exact .departs hf rfl (s.frames_goTo hf _) rfl (s.permit_goTo _)
    · rename_i hstays
      rw [Bool.and_eq_true] at hstays
      exact .looks hf (Or.inr (Or.inl ⟨rfl, rfl, hstays⟩)) (s.lineage_goTo hf _) rfl
        (s.permit_goTo _)
  | watchingStatus h =>
    simp only [System.advance]
    split
    · exact .departs hf rfl (s.frames_goTo hf _) rfl (s.permit_goTo _)
    · exact .looks hf (Or.inr (Or.inr ⟨rfl, rfl⟩)) (s.lineage_goTo hf _) rfl (s.permit_goTo _)
  | parked h =>
    simp only [System.advance]
    split
    · rename_i status _
      have hframes := (s.frames_updateStatus t t fun _ => status).trans hf
      refine .returns hf (System.frames_goTo _ hframes _) rfl fun u hu => ?_
      rw [System.permit_goTo, s.permit_updateStatus, Function.update_of_ne hu]
    · exact .stays
  | leaving h wake => exact leaving_stirs hf hnested
  | testing h => exact goTo_stirs hf trivial hself trivial
  | swapping h keeps =>
    simp only [System.advance]
    split
    · split
      · exact goTo_stirs hf trivial hself trivial
      · have hfresh : (System.replacement call : Holder T E).waiters = [] := by
          cases call <;> rfl
        refine .installs (s.rests_of hf trivial) (System.rests_goTo _ hf trivial) ?_
          (System.permit_goTo _ _)
        rw [System.waiters_goTo, s.waiters_install, hfresh]
        rfl
    · exact goTo_stirs hf trivial hself trivial
  | swapped h =>
    simp only [System.advance]
    split
    · exact answer_stirs hf trivial hnested hself _
    · split <;> exact goTo_stirs hf trivial hself trivial
  | counting h =>
    have hcounted : Unmoved s { s with generation := s.generation + 1 } t :=
      ⟨rfl, rfl, fun _ => id⟩
    exact goTo_stirs hf trivial hcounted trivial
  | retiring h => exact readies_stirs hf trivial rfl (Or.inr (Or.inr ⟨rfl, rfl, rfl⟩))
  | unparking u => exact answer_stirs hf trivial hnested (unmoved_updateStatus s t u fun _ => rfl) _
  | consuming h =>
    simp only [System.advance]
    split
    · exact answer_stirs hf trivial hnested hself _
    · split
      · exact answer_stirs hf trivial hnested hself _
      · split
        · have hentered : Unmoved s (s.enter h).2 t :=
            ⟨rfl, (unmoved_updateHolder s t h rfl).waiters, fun _ => id⟩
          exact goTo_stirs hf trivial hentered trivial
        · exact answer_stirs hf trivial hnested (unmoved_allocate s t) _

variable (initializer) in
/-- What one turn does to who waits. -/
theorem step_stirs (turn : Turn)
    (hnested : ∀ f rest, (s.thread turn.mover).frames = f :: rest → ∀ f' ∈ rest, f'.Runs) :
    Stirs s.roster turn.mover (s.step initializer turn).roster := by
  cases turn with
  | thread t =>
    rw [System.step, System.stepThread]
    split
    · rename_i call stage rest hf
      exact advance_stirs hf (hnested _ _ hf)
    · rename_i call calls hf hcalls
      refine .rests (fun f rest hf' => by cases hf.symm.trans hf') ?_ rfl fun u hu => ?_
      · intro f rest hf'
        have hframes : f :: rest = [⟨call, .start⟩] :=
          hf'.symm.trans ((congrFun (congrArg Lineage.frames
            (s.lineage_begin_next t call calls hf)) t).trans (Function.update_self ..))
        cases hframes
        trivial
      · have hcalls := s.permit_updateThread t (f := fun thread => { thread with calls }) rfl
        have hbegin := (s.updateThread t fun thread => { thread with calls }).permit_updateThread t
          (f := fun thread => { thread with frames := ⟨call, .start⟩ :: thread.frames }) rfl
        exact (congrFun (hbegin.trans hcalls) u).trans hu
    · exact .stays
  | claimFails t =>
    rw [System.step]
    split
    · rename_i hf
      exact goTo_stirs hf trivial (unmoved_self s t) trivial
    · exact .stays
  | wakes t =>
    rw [System.step]
    split
    · rename_i hf
      exact .returns hf (s.frames_goTo hf _) rfl fun u _ => congrFun (s.permit_goTo _) u
    · exact .stays
  | opens gate => exact .stays

end Steps

end SharedCells.Lazy
