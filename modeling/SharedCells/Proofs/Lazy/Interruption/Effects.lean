import SharedCells.Proofs.Lazy.Generations.Advances

/-!
# What a turn may do

`Effect` says what one turn of a thread may do to a reference of either sort, whatever the calls
that the reference offers: the innermost call goes on to another stage (`Stage.Next`), with a
change of one holder (`Stage.Changes`) or without, or it ends (`Stage.Ends`). Only one stage looks
at the status of the thread.

Nothing is assumed of the state, so this is the only place where the steps are taken apart.
-/

namespace SharedCells.Lazy

variable {T E : Type}

/-- The calls that a reference offers, and those on the status of a thread. -/
def Call.Offered : Call → Prop
  | resolve _ _ | force _ _ | retire _ => False
  | _ => True

/-- Where a call goes on whose attempt at a holder ended because that was retired. -/
def Call.retry (h : Nat) : Call → Stage T E
  | get _ => .start
  | _ => .entering h

/-- The answer to a call that was interrupted. -/
abbrev Answer.interrupted : Answer T E := .outcome (.error .interrupted)

/-- Whether a thread was interrupted. -/
def System.flag (s : System T E) (t : Nat) : Bool := (s.thread t).status.interrupted

/-- A call holds the claim of a holder that others find resolving. -/
def Stage.Resolves (h : Nat) : Stage T E → Prop
  | rechecking h' | handingBack h' | arming h' | running h' .publish _ _ | publishing h' _
  | completing h' _ => h' = h
  | _ => False

/-! ## Stages -/

/-- The next stage of a call that changes no holder in between. -/
inductive Stage.Next (initializer : Nat → Routine T E) (l : Lineage T E) (flag : Bool)
    (call : Call) : Stage T E → Stage T E → Prop
  | looks : Next initializer l flag call .start (.peeking l.current)
  | tests : ¬call.Looks → Next initializer l flag call .start (.testing l.current)
  | usesUp : ¬call.Looks → Next initializer l flag call .start (.consuming l.current)
  | raises {u : Nat} : ¬call.Looks → Next initializer l flag call .start (.unparking u)
  | enters {h : Nat} : Next initializer l flag call (.peeking h) (.entering h)
  | misses {h : Nat} {stage' : Stage T E} : (l.holders h).outcome = none →
    (stage' = .checking h ∨ stage' = .choosing h) →
      Next initializer l flag call (.entering h) stage'
  | finds_retired {h : Nat} : Next initializer l flag call (.checking h) (call.retry h)
  | chooses {h : Nat} : Next initializer l flag call (.checking h) (.choosing h)
  | finds {h : Nat} {stage' : Stage T E} :
    (stage' = .claiming h ∨ stage' = .registering h ∨ stage' = .entering h) →
      Next initializer l flag call (.choosing h) stage'
  | fails {h : Nat} : Next initializer l flag call (.claiming h) (.entering h)
  | renounces {h : Nat} : (l.holders h).retired = true →
    Next initializer l flag call (.rechecking h) (.handingBack h)
  | insists {h : Nat} : Next initializer l flag call (.rechecking h) (.arming h)
  | recalls {h : Nat} {o : Outcome T E} : (l.holders h).outcome = some o →
    Next initializer l flag call (.arming h) (.completing h o)
  | runs {h run : Nat} :
    Next initializer l flag call (.arming h) (.running h .publish run (initializer run).during)
  | lacks {h : Nat} {o : Outcome T E} : o ≠ .error .interrupted →
    Next initializer l flag call (.arming h) (.publishing h o)
  | concludes {h run : Nat} {o : Outcome T E} : o ≠ .error .interrupted →
    Next initializer l flag call (.running h .publish run []) (.publishing h o)
  | drains {h : Nat} {after : After T E} {us : List Nat} :
    Next initializer l flag call (.draining h after) (.waking us after)
  | wakes {u : Nat} {us : List Nat} {after : After T E} :
    Next initializer l flag call (.waking (u :: us) after) (.waking us after)
  | retries {h : Nat} : Next initializer l flag call (.waking [] (.giveUp h)) (call.retry h)
  | resolves {h : Nat} : Next initializer l flag call (.waking [] (.resolve h)) (.entering h)
  | registers {h : Nat} : Next initializer l flag call (.registering h) (.watching h)
  | watches {h : Nat} : (l.holders h).phase = .resolving →
    Next initializer l flag call (.watching h) (.watchingRetired h)
  | released {h : Nat} : Next initializer l flag call (.watching h) (.leaving h .ready)
  | replaced {h : Nat} : Next initializer l flag call (.watchingRetired h) (.leaving h .retired)
  | remains {h : Nat} :
    (call.policy.leaveOnRetire = true → (l.holders h).retired = false) →
      Next initializer l flag call (.watchingRetired h) (.watchingStatus h)
  /-- The only look at the status of the thread. -/
  | notices {h : Nat} : call.policy.interruptible = true → flag = true →
    Next initializer l flag call (.watchingStatus h) (.leaving h .interrupted)
  | parks {h : Nat} : Next initializer l flag call (.watchingStatus h) (.parked h)
  | unparks {h : Nat} : Next initializer l flag call (.parked h) (.watching h)
  | returns {h : Nat} : Next initializer l flag call (.leaving h .ready) (.entering h)
  | moves {h : Nat} : Next initializer l flag call (.leaving h .retired) (call.retry h)
  | tested {h : Nat} :
    Next initializer l flag call (.testing h) (.swapping h (l.holders h).isCancelled)
  | spares {h : Nat} : Next initializer l flag call (.swapping h true) (.swapped h)
  | loses {h : Nat} {keeps : Bool} : Next initializer l flag call (.swapping h keeps) .start
  | swapped {h : Nat} {stage' : Stage T E} : (stage' = .counting h ∨ stage' = .retiring h) →
    Next initializer l flag call (.swapped h) stage'
  | counts {h : Nat} : Next initializer l flag call (.counting h) (.retiring h)
  | consumes {h run : Nat} : (l.holders h).phase ≠ .cancelled →
    Next initializer l flag call (.consuming h)
      (.running h .consume run (initializer run).during)

/-- The change of a holder by a call, and the next stage of the call. -/
inductive Stage.Changes (call : Call) (h : Nat) (holder : Holder T E) :
    Stage T E → Holder T E → Stage T E → Prop
  | claims {stage' : Stage T E} : holder.phase = .unresolved →
    (stage' = .rechecking h ∧ call.policy.leaveOnRetire = true ∨ stage' = .arming h) →
      Changes call h holder (.claiming h) { holder with phase := .resolving } stage'
  | handsBack :
    Changes call h holder (.handingBack h) { holder with phase := .unresolved }
      (.draining h (.giveUp h))
  | publishes {o : Outcome T E} :
    Changes call h holder (.publishing h o) { holder with outcome := some o } (.completing h o)
  | completes {o : Outcome T E} :
    Changes call h holder (.completing h o) { holder with phase := .complete }
      (.draining h (.answer (.outcome o)))
  | retires :
    Changes call h holder (.retiring h) { holder with retired := true }
      (.draining h (System.afterRetiring call h))

/-- The answer of a call that ends at a stage. -/
inductive Stage.Ends (l : Lineage T E) : Stage T E → Answer T E → Prop
  | leaves {h : Nat} : Ends l (.leaving h .interrupted) .interrupted
  | wakes {a : Answer T E} : Ends l (.waking [] (.answer a)) a
  | holds {stage : Stage T E} {h : Nat} {o : Outcome T E} : (∀ k, ¬stage.Resolves k) →
    (l.holders h).outcome = some o → Ends l stage (.outcome o)
  | other {stage : Stage T E} {a : Answer T E} : (∀ k, ¬stage.Resolves k) → a ≠ .interrupted →
    Ends l stage a

/-! ## Effects -/

/-- Two lineages differ in nothing that a wait depends on. -/
structure Lineage.Alike (l l' : Lineage T E) : Prop where
  phase : ∀ h, (l'.holders h).phase = (l.holders h).phase
  retired : ∀ h, (l'.holders h).retired = (l.holders h).retired
  outcome : ∀ h, (l'.holders h).outcome = (l.holders h).outcome
  installed : l'.installed = l.installed
  current : l'.current = l.current
  log : l'.log = l.log
  frames : l'.frames = l.frames
  calls : l'.calls = l.calls

theorem Lineage.Alike.of_eq {l l' : Lineage T E} (h : l' = l) : l.Alike l' := by
  subst h
  exact ⟨fun _ => rfl, fun _ => rfl, fun _ => rfl, rfl, rfl, rfl, rfl, rfl⟩

theorem Lineage.Alike.frames_put {l l' : Lineage T E} (h : l.Alike l') (t : Nat)
    (frames : List (Frame T E)) :
    (l'.put t frames).frames = Function.update l.frames t frames := by
  rw [← h.frames]
  rfl

theorem System.alike_allocate (s : System T E) : s.lineage.Alike s.allocate.2.lineage :=
  ⟨fun _ => rfl, fun _ => rfl, fun _ => rfl, rfl, rfl, rfl, rfl, rfl⟩

theorem Lineage.alike_enter (l : Lineage T E) (h : Nat) : l.Alike (l.enter h) := by
  have hholder : ∀ k, (l.enter h).holders k = l.holders k ∨
      k = h ∧ (l.enter h).holders k = { l.holders h with armed := false } := by
    intro k
    by_cases hk : k = h
    · subst hk
      exact Or.inr ⟨rfl, l.holders_set_self ..⟩
    · exact Or.inl (l.holders_set_of_ne _ hk)
  refine ⟨fun k => ?_, fun k => ?_, fun k => ?_, rfl, rfl, rfl, rfl, rfl⟩
  all_goals
    rcases hholder k with hsame | ⟨rfl, hunarmed⟩
    · rw [hsame]
    · rw [hunarmed]

/-- What one turn of a thread may do. -/
inductive Effect (initializer : Nat → Routine T E) (l : Lineage T E) (flag : Bool) (t : Nat) :
    Lineage T E → Prop
  | stays : Effect initializer l flag t l
  | begins {call : Call} {calls : List Call} : l.frames t = [] → l.calls t = call :: calls →
    Effect initializer l flag t
      { l.put t [⟨call, .start⟩] with calls := Function.update l.calls t calls }
  | nests {call c : Call} {h run : Nat} {purpose : Purpose} {cs : List Call}
    {rest : List (Frame T E)} :
    l.frames t = ⟨call, .running h purpose run (c :: cs)⟩ :: rest →
      Effect initializer l flag t
        (l.put t (⟨c, .start⟩ :: ⟨call, .running h purpose run cs⟩ :: rest))
  | goes {l' : Lineage T E} {call : Call} {stage stage' : Stage T E} {rest : List (Frame T E)} :
    l.Alike l' → l.frames t = ⟨call, stage⟩ :: rest → stage.Next initializer l flag call stage' →
      Effect initializer l flag t (l'.put t (⟨call, stage'⟩ :: rest))
  | changes {call : Call} {h : Nat} {holder : Holder T E} {stage stage' : Stage T E}
    {rest : List (Frame T E)} :
    l.frames t = ⟨call, stage⟩ :: rest → stage.Changes call h (l.holders h) holder stage' →
      Effect initializer l flag t ((l.set h holder).put t (⟨call, stage'⟩ :: rest))
  | installs {call : Call} {rest : List (Frame T E)} :
    l.frames t = ⟨call, .swapping l.current false⟩ :: rest →
      Effect initializer l flag t
        ((l.install (System.replacement call)).put t (⟨call, .swapped l.current⟩ :: rest))
  | answers {l' : Lineage T E} {call : Call} {stage : Stage T E} {a : Answer T E}
    {rest : List (Frame T E)} :
    l.Alike l' → l.frames t = ⟨call, stage⟩ :: rest → stage.Ends l a →
      Effect initializer l flag t (l'.reply t rest call a)

theorem Ending.outcome_ne_interrupted (ending : Ending T E) (address : Nat) :
    ending.outcome address ≠ .error .interrupted := by
  cases ending <;> exact nofun

theorem exhausted_ne_interrupted (address : Nat) :
    (exhausted address : Outcome T E) ≠ .error .interrupted := by
  simp [exhausted]

/-- No call learns of an interruption by looking at a holder. -/
theorem Holder.observe_ne_interrupted {holder : Holder T E} {generation : Nat} {call : Call}
    {a : Answer T E} (h : holder.observe generation call = some a) : a ≠ .interrupted := by
  cases call with
  | get policy =>
    obtain ⟨v, -, rfl⟩ := Option.map_eq_some_iff.1 h
    exact nofun
  | tryGet | isInitialized | isFailed | isCancelled | inspect =>
    obtain rfl := Option.some.inj h
    exact nofun
  | _ => cases h

theorem tooLate_ne_interrupted (call : Call) :
    (System.tooLate call : Answer T E) ≠ .interrupted := by
  cases call <;> exact nofun

section Steps

variable {initializer : Nat → Routine T E} {s s' : System T E} {flag : Bool} {t : Nat}
  {call : Call} {stage : Stage T E} {rest : List (Frame T E)}

theorem goTo_effect (hs : s.lineage.Alike s'.lineage)
    (hf : s.lineage.frames t = ⟨call, stage⟩ :: rest) {stage' : Stage T E}
    (hnext : stage.Next initializer s.lineage flag call stage') :
    Effect initializer s.lineage flag t (s'.goTo t stage').lineage := by
  rw [s'.lineage_goTo ((congrFun hs.frames t).trans hf)]
  exact .goes hs hf hnext

theorem answer_effect (hs : s.lineage.Alike s'.lineage)
    (hf : s.lineage.frames t = ⟨call, stage⟩ :: rest) {a : Answer T E}
    (hends : stage.Ends s.lineage a) :
    Effect initializer s.lineage flag t (s'.answer t a).lineage := by
  rw [s'.lineage_answer ((congrFun hs.frames t).trans hf)]
  exact .answers hs hf hends

theorem updateHolder_effect (hf : s.lineage.frames t = ⟨call, stage⟩ :: rest) {h : Nat}
    {f : Holder T E → Holder T E} {stage' : Stage T E}
    (hchanges : stage.Changes call h (s.lineage.holders h) (f (s.holder h)).bare stage') :
    Effect initializer s.lineage flag t ((s.updateHolder h f).goTo t stage').lineage := by
  rw [s.lineage_goTo_updateHolder hf]
  exact .changes hf hchanges

theorem giveUp_effect (hs : s.lineage.Alike s'.lineage)
    (hf : s.lineage.frames t = ⟨call, stage⟩ :: rest) (hoffered : call.Offered) {h : Nat}
    (hnext : stage.Next initializer s.lineage flag call (call.retry h)) :
    Effect initializer s.lineage flag t (s'.giveUp t call h).lineage := by
  cases call with
  | resolve k policy => exact hoffered.elim
  | _ => exact goTo_effect hs hf hnext

theorem launch_effect (hf : s.lineage.frames t = ⟨call, .start⟩ :: rest)
    (hoffered : call.Offered) :
    Effect initializer s.lineage flag t (s.launch t call).lineage := by
  have hanswer : ∀ (s' : System T E) (a : Answer T E), s'.lineage = s.lineage → a ≠ .interrupted →
      Effect initializer s.lineage flag t (s'.answer t a).lineage := fun s' a hs ha =>
    answer_effect (.of_eq hs) hf (.other (fun _ => id) ha)
  cases call with
  | get policy | tryGet | isInitialized | isFailed | isCancelled | inspect =>
    exact goTo_effect (.of_eq rfl) hf .looks
  | reset | cancel => exact goTo_effect (.of_eq rfl) hf (.tests id)
  | generation => exact hanswer s _ rfl nofun
  | intoInner => exact goTo_effect (.of_eq rfl) hf (.usesUp id)
  | interrupt u => exact goTo_effect (.of_eq (s.lineage_updateStatus u _)) hf (.raises id)
  | interruptSelf => exact goTo_effect (.of_eq (s.lineage_updateStatus t _)) hf (.raises id)
  | isInterrupted => exact hanswer s _ rfl nofun
  | interrupted => exact hanswer _ _ (s.lineage_updateStatus t _) nofun
  | resolve h policy | force h interruptible | retire h => exact hoffered.elim

/-- The end of a run goes to the holder, or to the caller who used the reference up. -/
theorem conclude_effect {h : Nat} {purpose : Purpose}
    (hf : s.lineage.frames t = ⟨call, stage⟩ :: rest) (ending : Ending T E)
    (hnext : purpose = .publish → ∀ o, o ≠ .error .interrupted →
      stage.Next initializer s.lineage flag call (.publishing h o))
    (hends : purpose = .consume → ∀ k, ¬stage.Resolves k) :
    Effect initializer s.lineage flag t (s.conclude t h ending purpose).lineage := by
  have hne := ending.outcome_ne_interrupted s.allocations
  cases purpose with
  | publish => exact goTo_effect s.alike_allocate hf (hnext rfl _ hne)
  | consume =>
    refine answer_effect s.alike_allocate hf (.other (hends rfl) fun hsame => hne ?_)
    rw [← ending.given_eq_outcome]
    exact Answer.outcome.inj hsame

theorem arming_effect {h : Nat} (hf : s.lineage.frames t = ⟨call, .arming h⟩ :: rest) :
    Effect initializer s.lineage flag t
      (s.advance initializer t call (.arming h)).lineage := by
  simp only [System.advance]
  split
  · rename_i o ho
    exact goTo_effect (.of_eq rfl) hf (.recalls ho)
  · split
    · refine goTo_effect ?_ hf .runs
      exact s.lineage_enter h ▸ s.lineage.alike_enter h
    · exact goTo_effect s.alike_allocate hf (.lacks (exhausted_ne_interrupted _))

theorem running_effect {h run : Nat} {purpose : Purpose} {calls : List Call}
    (hf : s.lineage.frames t = ⟨call, .running h purpose run calls⟩ :: rest) :
    Effect initializer s.lineage flag t
      (s.advance initializer t call (.running h purpose run calls)).lineage := by
  cases calls with
  | cons c cs =>
    simp only [System.advance]
    rw [s.lineage_begin_goTo hf]
    exact .nests hf
  | nil =>
    simp only [System.advance]
    split
    · refine conclude_effect hf _ ?_ ?_
      · rintro rfl o ho
        exact .concludes ho
      · rintro rfl k hno
        exact hno
    · exact .stays

theorem waking_effect {threads : List Nat} {after : After T E}
    (hf : s.lineage.frames t = ⟨call, .waking threads after⟩ :: rest)
    (hoffered : call.Offered) :
    Effect initializer s.lineage flag t
      (s.advance initializer t call (.waking threads after)).lineage := by
  cases threads with
  | cons u us => exact goTo_effect (.of_eq (s.lineage_updateStatus u _)) hf .wakes
  | nil =>
    cases after with
    | giveUp h => exact giveUp_effect (.of_eq rfl) hf hoffered .retries
    | resolve h => exact goTo_effect (.of_eq rfl) hf .resolves
    | answer a => exact answer_effect (.of_eq rfl) hf .wakes

theorem leaving_effect {h : Nat} {wake : Wake}
    (hf : s.lineage.frames t = ⟨call, .leaving h wake⟩ :: rest) (hoffered : call.Offered) :
    Effect initializer s.lineage flag t
      (s.advance initializer t call (.leaving h wake)).lineage := by
  have hs := Lineage.Alike.of_eq (s.lineage_updateWaiters h fun holder => holder.waiters.erase t)
  cases wake with
  | ready => exact goTo_effect hs hf .returns
  | interrupted => exact answer_effect hs hf .leaves
  | retired => exact giveUp_effect hs hf hoffered .moves

theorem swapping_effect {h : Nat} {keeps : Bool}
    (hf : s.lineage.frames t = ⟨call, .swapping h keeps⟩ :: rest) :
    Effect initializer s.lineage flag t
      (s.advance initializer t call (.swapping h keeps)).lineage := by
  simp only [System.advance]
  split
  · rename_i hcurrent
    subst hcurrent
    cases keeps with
    | true => exact goTo_effect (.of_eq rfl) hf .spares
    | false =>
      have hbare : (System.replacement call : Holder T E).bare = System.replacement call := by
        cases call <;> rfl
      simp only [Bool.false_eq_true, if_false]
      rw [(s.install _).lineage_goTo hf, s.lineage_install, hbare]
      exact .installs hf
  · exact goTo_effect (.of_eq rfl) hf .loses

theorem consuming_effect {h : Nat} (hf : s.lineage.frames t = ⟨call, .consuming h⟩ :: rest) :
    Effect initializer s.lineage flag t
      (s.advance initializer t call (.consuming h)).lineage := by
  simp only [System.advance]
  split
  · rename_i o ho
    exact answer_effect (.of_eq rfl) hf (.holds (fun _ => id) ho)
  · split
    · exact answer_effect (.of_eq rfl) hf (.other (fun _ => id) (by simp))
    · rename_i hlive
      split
      · refine goTo_effect ?_ hf (.consumes fun hno => hlive (decide_eq_true hno))
        exact s.lineage_enter h ▸ s.lineage.alike_enter h
      · refine answer_effect s.alike_allocate hf (.other (fun _ => id) fun hsame => ?_)
        exact exhausted_ne_interrupted _ (Answer.outcome.inj hsame)

/-- What one step of a thread may do whose innermost call is given. -/
theorem advance_effect (hf : s.lineage.frames t = ⟨call, stage⟩ :: rest)
    (hoffered : call.Offered) :
    Effect initializer s.lineage (s.flag t) t
      (s.advance initializer t call stage).lineage := by
  cases stage with
  | start => exact launch_effect hf hoffered
  | peeking h =>
    simp only [System.advance]
    split
    · rename_i a hobserve
      exact answer_effect (.of_eq rfl) hf
        (.other (fun _ => id) (Holder.observe_ne_interrupted hobserve))
    · exact goTo_effect (.of_eq rfl) hf .enters
  | entering h =>
    simp only [System.advance]
    split
    · rename_i o ho
      exact answer_effect (.of_eq rfl) hf (.holds (fun _ => id) ho)
    · rename_i hnone
      refine goTo_effect (.of_eq rfl) hf (.misses hnone ?_)
      split
      · exact Or.inl rfl
      · exact Or.inr rfl
  | checking h =>
    simp only [System.advance]
    split
    · exact giveUp_effect (.of_eq rfl) hf hoffered .finds_retired
    · exact goTo_effect (.of_eq rfl) hf .chooses
  | choosing h =>
    simp only [System.advance]
    split
    · exact goTo_effect (.of_eq rfl) hf (.finds (Or.inl rfl))
    · exact goTo_effect (.of_eq rfl) hf (.finds (Or.inr (Or.inl rfl)))
    · exact goTo_effect (.of_eq rfl) hf (.finds (Or.inr (Or.inr rfl)))
    · exact answer_effect (.of_eq rfl) hf (.other (fun _ => id) (by simp))
  | claiming h =>
    simp only [System.advance]
    split
    · rename_i hphase
      refine updateHolder_effect hf (.claims hphase ?_)
      split
      · rename_i hleaves
        exact Or.inl ⟨rfl, hleaves⟩
      · exact Or.inr rfl
    · exact goTo_effect (.of_eq rfl) hf .fails
  | rechecking h =>
    simp only [System.advance]
    split
    · rename_i hretired
      exact goTo_effect (.of_eq rfl) hf (.renounces hretired)
    · exact goTo_effect (.of_eq rfl) hf .insists
  | handingBack h => exact updateHolder_effect hf .handsBack
  | arming h => exact arming_effect hf
  | running h purpose run calls => exact running_effect hf
  | publishing h o => exact updateHolder_effect hf .publishes
  | completing h o => exact updateHolder_effect hf .completes
  | draining h after => exact goTo_effect (.of_eq (s.lineage_updateWaiters h _)) hf .drains
  | waking threads after => exact waking_effect hf hoffered
  | registering h => exact goTo_effect (.of_eq (s.lineage_updateWaiters h _)) hf .registers
  | watching h =>
    simp only [System.advance]
    split
    · rename_i hphase
      exact goTo_effect (.of_eq rfl) hf (.watches hphase)
    · exact goTo_effect (.of_eq rfl) hf .released
  | watchingRetired h =>
    simp only [System.advance]
    split
    · exact goTo_effect (.of_eq rfl) hf .replaced
    · rename_i hstays
      refine goTo_effect (.of_eq rfl) hf (.remains fun hleaves => ?_)
      exact Bool.eq_false_iff.2 fun hretired => hstays (Bool.and_eq_true_iff.2 ⟨hleaves, hretired⟩)
  | watchingStatus h =>
    simp only [System.advance]
    split
    · rename_i hstatus
      obtain ⟨hinterruptible, hflag⟩ := Bool.and_eq_true_iff.1 hstatus
      exact goTo_effect (.of_eq rfl) hf (.notices hinterruptible hflag)
    · exact goTo_effect (.of_eq rfl) hf .parks
  | parked h =>
    simp only [System.advance]
    split
    · exact goTo_effect (.of_eq (s.lineage_updateStatus t _)) hf .unparks
    · exact .stays
  | leaving h wake => exact leaving_effect hf hoffered
  | testing h => exact goTo_effect (.of_eq rfl) hf .tested
  | swapping h keeps => exact swapping_effect hf
  | swapped h =>
    simp only [System.advance]
    split
    · exact answer_effect (.of_eq rfl) hf (.other (fun _ => id) (tooLate_ne_interrupted call))
    · refine goTo_effect (.of_eq rfl) hf (.swapped ?_)
      split
      · exact Or.inl rfl
      · exact Or.inr rfl
  | counting h =>
    let counted : System T E := { s with generation := s.generation + 1 }
    have hs : s.lineage.Alike counted.lineage :=
      ⟨fun _ => rfl, fun _ => rfl, fun _ => rfl, rfl, rfl, rfl, rfl, rfl⟩
    exact goTo_effect hs hf .counts
  | retiring h => exact updateHolder_effect hf .retires
  | unparking u =>
    exact answer_effect (.of_eq (s.lineage_updateStatus u _)) hf (.other (fun _ => id) (by simp))
  | consuming h => exact consuming_effect hf

theorem step_effect (initializer : Nat → Routine T E) (s : System T E) (turn : Turn)
    (hoffered : ∀ f rest, s.lineage.frames turn.mover = f :: rest → f.call.Offered) :
    Effect initializer s.lineage (s.flag turn.mover) turn.mover
      (s.step initializer turn).lineage := by
  cases turn with
  | thread t =>
    rw [System.step, System.stepThread]
    split
    · rename_i call stage rest hf
      exact advance_effect hf (hoffered _ _ hf)
    · rename_i call calls hf hcalls
      rw [s.lineage_begin_next t call calls hf]
      exact .begins hf hcalls
    · exact .stays
  | claimFails t =>
    rw [System.step]
    split
    · rename_i call h rest hf
      exact goTo_effect (.of_eq rfl) hf .fails
    · exact .stays
  | wakes t =>
    rw [System.step]
    split
    · rename_i call h rest hf
      exact goTo_effect (.of_eq rfl) hf .unparks
    · exact .stays
  | opens gate => exact .stays

end Steps

end SharedCells.Lazy
