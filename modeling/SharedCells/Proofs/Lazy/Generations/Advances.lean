import SharedCells.Proofs.Lazy.Lineage

/-!
# What a turn does to a resettable reference

Calls on a resettable reference get the outcome of a generation or put another generation in its
place. `Stage.Allowed` says where such a call may stand, and what it may rely on there. What that
is about depends on the place of the call, so it is stated for any `Ties`. `Advances` lists what
one turn may do to the lineage, and `stepThread_advances` says that it does nothing else. Whatever
is to hold of all schedules is shown from this list.
-/

namespace SharedCells.Lazy

variable {T E : Type}

/-! ## Calls -/

/-- The calls that a user makes on a resettable reference. -/
def Call.Renews : Call → Prop
  | get policy => policy.leaveOnRetire = true
  | resolve _ _ | force _ _ | retire _ | intoInner => False
  | _ => True

/-- The calls that put another holder in the place of the current one. -/
def Call.Replaces : Call → Prop
  | reset | cancel => True
  | _ => False

/-- The calls that end with an outcome. -/
def Call.Awaits : Call → Prop
  | get _ | reset => True
  | _ => False

/-- What a call may rely on at its place. -/
structure Ties where
  /-- The holders that the call may be about. -/
  near : Nat → Prop
  /-- The call has replaced no holder. -/
  free : Prop
  /-- The holders whose replacement the call has yet to count. -/
  due : Nat → Prop

/-- What a holder gives to a call for its outcome. -/
def Holder.Gives (holder : Holder T E) (a : Answer T E) : Prop :=
  (∃ o, holder.outcome = some o ∧ a = .outcome o) ∨
    holder.phase = .cancelled ∧ a = .outcome (.error .cancelled)

/-- What a call may answer. -/
def Call.Answers (ties : Ties) (l : Lineage T E) : Call → Answer T E → Prop
  | get policy, a =>
    (policy.interruptible = true ∧ a = .outcome (.error .interrupted)) ∨
      ∃ h, ties.near h ∧ (l.holders h).Gives a
  | reset, a =>
    (ties.free ∧ a = .outcome (.error .cancelled)) ∨
      ∃ h o, ties.near h ∧ (l.holders h).outcome = some o ∧ a = .outcome o
  | cancel, a => (ties.free ∧ a = .flag false) ∨ (∃ h, ties.near h) ∧ a = .flag true
  | _, _ => True

/-! ## Stages -/

/-- The holder whose claim a call holds at a stage. -/
def Stage.claimed : Stage T E → Option Nat
  | rechecking h | handingBack h | arming h | running h _ _ _ | publishing h _ | completing h _ =>
    some h
  | _ => none

/-- The holder that a call has replaced at a stage without counting that. -/
def Stage.uncounted : Stage T E → Option Nat
  | swapped h | counting h => some h
  | _ => none

/-- The outcome is that of the run of the initializer for a holder. -/
def Computed (initializer : Nat → Routine T E) (runs : List Nat) (h : Nat) (o : Outcome T E) :
    Prop :=
  ∃ n address, runs[n]? = some h ∧ (initializer (n + 1)).ending.Leaves address o

/-- What may follow once waiters are woken. -/
def After.Allowed (ties : Ties) (l : Lineage T E) (call : Call) : After T E → Prop
  | giveUp h => call.Awaits ∧ ties.near h
  | resolve h => call = .reset ∧ ties.near h
  | answer (.outcome o) => call.Awaits ∧ ∃ h, ties.near h ∧ (l.holders h).outcome = some o
  | answer (.flag true) => call = .cancel ∧ ∃ h, ties.near h
  | answer _ => False

/-- Where a call may stand. -/
def Stage.Allowed (initializer : Nat → Routine T E) (ties : Ties) (l : Lineage T E) (call : Call) :
    Stage T E → Prop
  | start => ties.free
  | peeking h => call.Looks ∧ ties.near h
  | entering h | checking h | choosing h | claiming h | registering h | watching h
  | watchingRetired h | watchingStatus h | parked h => call.Awaits ∧ ties.near h
  | leaving h wake =>
    call.Awaits ∧ ties.near h ∧ (wake = .interrupted → call.policy.interruptible = true)
  | rechecking h | handingBack h | arming h =>
    call.Awaits ∧ ties.near h ∧ (l.holders h).outcome = none ∧ (l.holders h).armed = true
  | running h purpose run calls =>
    call.Awaits ∧ ties.near h ∧ (l.holders h).outcome = none ∧ (l.holders h).armed = false ∧
      purpose = .publish ∧ (∃ n, l.runs[n]? = some h ∧ run = n + 1) ∧ ∀ c ∈ calls, c.Renews
  | publishing h o =>
    call.Awaits ∧ ties.near h ∧ (l.holders h).outcome = none ∧ (l.holders h).armed = false ∧
      Computed initializer l.runs h o
  | completing h o => call.Awaits ∧ ties.near h ∧ (l.holders h).outcome = some o
  | draining _ after | waking _ after => after.Allowed ties l call
  | testing h => call.Replaces ∧ ties.free ∧ h < l.installed
  | swapping h keeps =>
    call.Replaces ∧ ties.free ∧ h < l.installed ∧ keeps = (l.holders h).isCancelled
  | swapped h =>
    call.Replaces ∧ ((ties.free ∧ (l.holders h).phase = .cancelled) ∨
      ties.near h ∧ (call = .reset → ties.due h))
  | counting h => call = .reset ∧ ties.near h ∧ ties.due h
  | retiring h => call.Replaces ∧ ties.near h
  | unparking _ => ¬call.Replaces ∧ ¬call.Awaits
  | consuming _ => False

/-! ## Advances -/

/-- What one turn of a thread may do to a lineage. -/
inductive Advances (initializer : Nat → Routine T E) (ties : Ties) (l : Lineage T E) (t : Nat) :
    Lineage T E → Prop
  | stays : Advances initializer ties l t l
  | begins {call : Call} {calls : List Call} : l.frames t = [] → l.calls t = call :: calls →
    Advances initializer ties l t
      { l.put t [⟨call, .start⟩] with calls := Function.update l.calls t calls }
  | nests {call c : Call} {h run : Nat} {purpose : Purpose} {cs : List Call}
    {rest : List (Frame T E)} :
    l.frames t = ⟨call, .running h purpose run (c :: cs)⟩ :: rest →
      Advances initializer ties l t
        (l.put t (⟨c, .start⟩ :: ⟨call, .running h purpose run cs⟩ :: rest))
  /-- The call comes to a stage where it may stand; it neither takes nor gives the claim. If it
  holds one, it has looked once more whether the holder is retired. -/
  | passes {call : Call} {stage stage' : Stage T E} {rest : List (Frame T E)} :
    l.frames t = ⟨call, stage⟩ :: rest → stage'.claimed = stage.claimed →
      stage'.Allowed initializer ties l call →
        (call = .reset → stage.uncounted ≠ none → stage'.uncounted = stage.uncounted) →
          (∀ h, stage' = .arming h → (l.holders h).retired = false) →
            (stage.claimed ≠ none → ∃ h, stage = .rechecking h ∧
              (stage' = .handingBack h ∨ stage' = .arming h)) →
                Advances initializer ties l t (l.put t (⟨call, stage'⟩ :: rest))
  | replies {call : Call} {stage : Stage T E} {a : Answer T E} {rest : List (Frame T E)} :
    l.frames t = ⟨call, stage⟩ :: rest → stage.claimed = none → call.Answers ties l a →
      (∀ h, stage.uncounted = some h → (l.holders h).phase = .cancelled) →
        Advances initializer ties l t (l.reply t rest call a)
  | claims {call : Call} {h : Nat} {stage' : Stage T E} {rest : List (Frame T E)} :
    l.frames t = ⟨call, .claiming h⟩ :: rest → (l.holders h).phase = .unresolved →
      (stage' = .rechecking h ∨ stage' = .arming h ∧ call = .reset) →
        Advances initializer ties l t
          ((l.set h { l.holders h with phase := .resolving }).put t (⟨call, stage'⟩ :: rest))
  | handsBack {call : Call} {h : Nat} {rest : List (Frame T E)} :
    l.frames t = ⟨call, .handingBack h⟩ :: rest →
      Advances initializer ties l t
        ((l.set h { l.holders h with phase := .unresolved }).put t
          (⟨call, .draining h (.giveUp h)⟩ :: rest))
  /-- The call takes the initializer and runs it. -/
  | enters {call : Call} {h : Nat} {rest : List (Frame T E)} :
    l.frames t = ⟨call, .arming h⟩ :: rest →
      Advances initializer ties l t
        ((l.enter h).put t (⟨call, .running h .publish (l.runs.length + 1)
          (initializer (l.runs.length + 1)).during⟩ :: rest))
  | concludes {call : Call} {h run : Nat} {rest : List (Frame T E)} :
    l.frames t = ⟨call, .running h .publish run []⟩ :: rest →
      Advances initializer ties l t
        (l.allocate.put t
          (⟨call, .publishing h ((initializer run).ending.outcome l.allocations)⟩ :: rest))
  | publishes {call : Call} {h : Nat} {o : Outcome T E} {rest : List (Frame T E)} :
    l.frames t = ⟨call, .publishing h o⟩ :: rest →
      Advances initializer ties l t
        ((l.set h { l.holders h with outcome := some o }).put t (⟨call, .completing h o⟩ :: rest))
  | completes {call : Call} {h : Nat} {o : Outcome T E} {rest : List (Frame T E)} :
    l.frames t = ⟨call, .completing h o⟩ :: rest →
      Advances initializer ties l t
        ((l.set h { l.holders h with phase := .complete }).put t
          (⟨call, .draining h (.answer (.outcome o))⟩ :: rest))
  /-- The call replaces the current holder. -/
  | replaces {call : Call} {rest : List (Frame T E)} : call.Replaces →
    l.frames t = ⟨call, .swapping l.current false⟩ :: rest →
      Advances initializer ties l t
        ((l.install (System.replacement call)).put t (⟨call, .swapped l.current⟩ :: rest))
  | counts {call : Call} {h : Nat} {rest : List (Frame T E)} :
    l.frames t = ⟨call, .counting h⟩ :: rest →
      Advances initializer ties l t
        (Lineage.put { l with generation := l.generation + 1 } t (⟨call, .retiring h⟩ :: rest))
  | retires {call : Call} {h : Nat} {rest : List (Frame T E)} :
    l.frames t = ⟨call, .retiring h⟩ :: rest →
      Advances initializer ties l t
        ((l.set h { l.holders h with retired := true }).put t
          (⟨call, .draining h (System.afterRetiring call h)⟩ :: rest))

/-- The place of a call goes with the reference. -/
structure Ties.Fit (ties : Ties) (l : Lineage T E) (call : Call) : Prop where
  renews : call.Renews
  free : ¬call.Replaces → ties.free
  current : call.Looks → ties.near l.current
  installed : l.current < l.installed
  /-- What a call has replaced was not cancelled. -/
  live : call.Replaces → ∀ h, ties.near h → (l.holders h).phase ≠ .cancelled

theorem Holder.outcome_of_peek {h : Holder T E} {v : Shared T} (hpeek : h.peek = some v) :
    h.outcome = some (.ok v) := by
  rw [Holder.peek] at hpeek
  split at hpeek
  · rename_i v' hout
    rw [hout, Option.some.inj hpeek]
  · cases hpeek

namespace Call

variable {ties : Ties} {l : Lineage T E} {call : Call} {h : Nat}

/-- A call for an outcome may answer with that of a holder that it is about. -/
theorem answers_outcome (hawaits : call.Awaits) (hnear : ties.near h) {o : Outcome T E}
    (ho : (l.holders h).outcome = some o) : call.Answers ties l (.outcome o) := by
  cases call with
  | get policy => exact Or.inr ⟨h, hnear, Or.inl ⟨o, ho, rfl⟩⟩
  | reset => exact Or.inr ⟨h, o, hnear, ho, rfl⟩
  | _ => cases hawaits

/-- A call that finds a holder cancelled says so. -/
theorem answers_cancelled (hfit : ties.Fit l call) (hawaits : call.Awaits) (hnear : ties.near h)
    (hphase : (l.holders h).phase = .cancelled) :
    call.Answers ties l (.outcome (.error .cancelled)) := by
  cases call with
  | get policy => exact Or.inr ⟨h, hnear, Or.inr ⟨hphase, rfl⟩⟩
  | reset => exact absurd hphase (hfit.live trivial h hnear)
  | _ => cases hawaits

/-- Only a call for an outcome may be interrupted. -/
theorem answers_interrupted (hawaits : call.Awaits) (hpolicy : call.policy.interruptible = true) :
    call.Answers ties l (.outcome (.error .interrupted)) := by
  cases call with
  | get policy => exact Or.inl ⟨hpolicy, rfl⟩
  | reset => cases hpolicy
  | _ => cases hawaits

theorem answers_tooLate (hreplaces : call.Replaces) (hfree : ties.free) :
    call.Answers ties l (System.tooLate call) := by
  cases call with
  | reset => exact Or.inl ⟨hfree, rfl⟩
  | cancel => exact Or.inl ⟨hfree, rfl⟩
  | _ => cases hreplaces

theorem answers_other (hreplaces : ¬call.Replaces) (hawaits : ¬call.Awaits) (a : Answer T E) :
    call.Answers ties l a := by
  cases call with
  | get policy => exact absurd trivial hawaits
  | reset => exact absurd trivial hawaits
  | cancel => exact absurd trivial hreplaces
  | _ => trivial

end Call

section Steps

variable {initializer : Nat → Routine T E} {ties : Ties} {s s' : System T E} {t : Nat}
  {call : Call} {stage : Stage T E} {rest : List (Frame T E)}

theorem goTo_advances (hs : s'.lineage = s.lineage)
    (hf : s.lineage.frames t = ⟨call, stage⟩ :: rest) {stage' : Stage T E}
    (hclaimed : stage'.claimed = stage.claimed)
    (hallowed : stage'.Allowed initializer ties s.lineage call)
    (huncounted : call = .reset → stage.uncounted ≠ none → stage'.uncounted = stage.uncounted)
    (harming : ∀ h, stage' = .arming h → (s.lineage.holders h).retired = false)
    (hholds : stage.claimed ≠ none → ∃ h, stage = .rechecking h ∧
      (stage' = .handingBack h ∨ stage' = .arming h)) :
    Advances initializer ties s.lineage t (s'.goTo t stage').lineage := by
  rw [s'.lineage_goTo (hs ▸ hf), hs]
  exact .passes hf hclaimed hallowed huncounted harming hholds

/-- The same, where no claim and no count is about. -/
theorem goTo_advances_simply (hs : s'.lineage = s.lineage)
    (hf : s.lineage.frames t = ⟨call, stage⟩ :: rest) {stage' : Stage T E}
    (hallowed : stage'.Allowed initializer ties s.lineage call)
    (hclaimed : stage.claimed = none) (huncounted : stage.uncounted = none)
    (hclaimed' : stage'.claimed = none) :
    Advances initializer ties s.lineage t (s'.goTo t stage').lineage := by
  refine goTo_advances hs hf (hclaimed'.trans hclaimed.symm) hallowed
    (fun _ hno => absurd huncounted hno) ?_ fun hno => absurd hclaimed hno
  rintro h rfl
  cases hclaimed'

/-- A call ends, perhaps after a change that the lineage does not show. -/
theorem answer_advances (hs : s'.lineage = s.lineage)
    (hf : s.lineage.frames t = ⟨call, stage⟩ :: rest) (hclaimed : stage.claimed = none)
    {a : Answer T E} (hanswers : call.Answers ties s.lineage a)
    (huncounted : ∀ h, stage.uncounted = some h → (s.lineage.holders h).phase = .cancelled) :
    Advances initializer ties s.lineage t (s'.answer t a).lineage := by
  rw [s'.lineage_answer (hs ▸ hf), hs]
  exact .replies hf hclaimed hanswers huncounted

theorem giveUp_advances (hs : s'.lineage = s.lineage)
    (hf : s.lineage.frames t = ⟨call, stage⟩ :: rest) (hclaimed : stage.claimed = none)
    (huncounted : stage.uncounted = none) (hfit : ties.Fit s.lineage call) {h : Nat}
    (hawaits : call.Awaits) (hnear : ties.near h) :
    Advances initializer ties s.lineage t (s'.giveUp t call h).lineage := by
  cases call with
  | get policy => exact goTo_advances_simply hs hf (hfit.free id) hclaimed huncounted rfl
  | reset => exact goTo_advances_simply hs hf ⟨hawaits, hnear⟩ hclaimed huncounted rfl
  | _ => cases hawaits

theorem launch_advances (hf : s.lineage.frames t = ⟨call, .start⟩ :: rest)
    (hfit : ties.Fit s.lineage call) (hfree : ties.free) :
    Advances initializer ties s.lineage t (s.launch t call).lineage := by
  have hlook : call.Looks → Advances initializer ties s.lineage t
      (s.goTo t (.peeking s.current)).lineage := fun hlooks =>
    goTo_advances_simply rfl hf ⟨hlooks, hfit.current hlooks⟩ rfl rfl rfl
  have htest : call.Replaces → Advances initializer ties s.lineage t
      (s.goTo t (.testing s.current)).lineage := fun hreplaces =>
    goTo_advances_simply rfl hf ⟨hreplaces, hfree, hfit.installed⟩ rfl rfl rfl
  cases call with
  | get policy => exact hlook trivial
  | tryGet => exact hlook trivial
  | isInitialized => exact hlook trivial
  | isFailed => exact hlook trivial
  | isCancelled => exact hlook trivial
  | inspect => exact hlook trivial
  | reset => exact htest trivial
  | cancel => exact htest trivial
  | generation => exact answer_advances rfl hf rfl trivial fun h hno => nomatch hno
  | interrupt u =>
    exact goTo_advances_simply (s.lineage_updateStatus u _) hf ⟨id, id⟩ rfl rfl rfl
  | interruptSelf =>
    exact goTo_advances_simply (s.lineage_updateStatus t _) hf ⟨id, id⟩ rfl rfl rfl
  | isInterrupted => exact answer_advances rfl hf rfl trivial fun h hno => nomatch hno
  | interrupted =>
    exact answer_advances (s.lineage_updateStatus t _) hf rfl trivial fun h hno => nomatch hno
  | _ => exact hfit.renews.elim

theorem peeking_advances {h : Nat} (hf : s.lineage.frames t = ⟨call, .peeking h⟩ :: rest)
    (hlooks : call.Looks) (hnear : ties.near h) :
    Advances initializer ties s.lineage t
      (s.advance initializer t call (.peeking h)).lineage := by
  simp only [System.advance]
  cases hobserve : (s.holder h).observe s.generation call with
  | none =>
    have hawaits : call.Awaits := by
      cases call with
      | get policy => trivial
      | tryGet | isInitialized | isFailed | isCancelled | inspect => cases hobserve
      | _ => cases hlooks
    exact goTo_advances_simply rfl hf ⟨hawaits, hnear⟩ rfl rfl rfl
  | some a =>
    refine answer_advances rfl hf rfl ?_ fun h hno => nomatch hno
    cases call with
    | get policy =>
      obtain ⟨v, hpeek, rfl⟩ := Option.map_eq_some_iff.1 hobserve
      have hawaits : (Call.get policy).Awaits := trivial
      exact Call.answers_outcome hawaits hnear (Holder.outcome_of_peek hpeek)
    | reset | cancel => cases hlooks
    | _ => trivial

theorem choosing_advances {h : Nat} (hf : s.lineage.frames t = ⟨call, .choosing h⟩ :: rest)
    (hfit : ties.Fit s.lineage call) (hawaits : call.Awaits) (hnear : ties.near h) :
    Advances initializer ties s.lineage t
      (s.advance initializer t call (.choosing h)).lineage := by
  simp only [System.advance]
  split
  · exact goTo_advances_simply rfl hf ⟨hawaits, hnear⟩ rfl rfl rfl
  · exact goTo_advances_simply rfl hf ⟨hawaits, hnear⟩ rfl rfl rfl
  · exact goTo_advances_simply rfl hf ⟨hawaits, hnear⟩ rfl rfl rfl
  · rename_i hphase
    exact answer_advances rfl hf rfl (Call.answers_cancelled hfit hawaits hnear hphase)
      fun h hno => nomatch hno

theorem claiming_advances {h : Nat} (hf : s.lineage.frames t = ⟨call, .claiming h⟩ :: rest)
    (hfit : ties.Fit s.lineage call) (hawaits : call.Awaits) (hnear : ties.near h) :
    Advances initializer ties s.lineage t
      (s.advance initializer t call (.claiming h)).lineage := by
  simp only [System.advance]
  split
  · rename_i hphase
    rw [s.lineage_goTo_updateHolder hf]
    refine .claims hf hphase ?_
    cases call with
    | get policy =>
      have hleaves : (Call.get policy).policy.leaveOnRetire = true := hfit.renews
      rw [if_pos hleaves]
      exact Or.inl rfl
    | reset => exact Or.inr ⟨rfl, rfl⟩
    | _ => cases hawaits
  · exact goTo_advances_simply rfl hf ⟨hawaits, hnear⟩ rfl rfl rfl

/-- A run makes its next call, waits for its gate or ends. -/
theorem running_advances {h run : Nat} {purpose : Purpose} {calls : List Call}
    (hf : s.lineage.frames t = ⟨call, .running h purpose run calls⟩ :: rest)
    (hpurpose : purpose = .publish) :
    Advances initializer ties s.lineage t
      (s.advance initializer t call (.running h purpose run calls)).lineage := by
  subst hpurpose
  cases calls with
  | cons c cs =>
    simp only [System.advance]
    rw [s.lineage_begin_goTo hf]
    exact .nests hf
  | nil =>
    simp only [System.advance]
    split
    · show Advances initializer ties s.lineage t (s.allocate.2.goTo t _).lineage
      rw [s.allocate.2.lineage_goTo hf]
      exact .concludes hf
    · exact .stays

/-- The next waiter is woken, or what follows is done. -/
theorem waking_advances {threads : List Nat} {after : After T E}
    (hf : s.lineage.frames t = ⟨call, .waking threads after⟩ :: rest)
    (hfit : ties.Fit s.lineage call) (hallowed : after.Allowed ties s.lineage call) :
    Advances initializer ties s.lineage t
      (s.advance initializer t call (.waking threads after)).lineage := by
  cases threads with
  | cons u us =>
    exact goTo_advances_simply (s.lineage_updateStatus u _) hf hallowed rfl rfl rfl
  | nil =>
    cases after with
    | giveUp h => exact giveUp_advances rfl hf rfl rfl hfit hallowed.1 hallowed.2
    | resolve h =>
      obtain ⟨rfl, hnear⟩ := hallowed
      exact goTo_advances_simply rfl hf ⟨trivial, hnear⟩ rfl rfl rfl
    | answer a =>
      refine answer_advances rfl hf rfl ?_ fun h hno => nomatch hno
      cases a with
      | outcome o =>
        obtain ⟨hawaits, h, hnear, ho⟩ := hallowed
        exact Call.answers_outcome hawaits hnear ho
      | flag b =>
        cases b with
        | false => exact hallowed.elim
        | true =>
          obtain ⟨rfl, hnear⟩ := hallowed
          exact Or.inr ⟨hnear, rfl⟩
      | _ => exact hallowed.elim

theorem leaving_advances {h : Nat} {wake : Wake}
    (hf : s.lineage.frames t = ⟨call, .leaving h wake⟩ :: rest) (hfit : ties.Fit s.lineage call)
    (hawaits : call.Awaits) (hnear : ties.near h)
    (hpolicy : wake = .interrupted → call.policy.interruptible = true) :
    Advances initializer ties s.lineage t
      (s.advance initializer t call (.leaving h wake)).lineage := by
  have hs := s.lineage_updateWaiters h fun holder => holder.waiters.erase t
  cases wake with
  | ready => exact goTo_advances_simply hs hf ⟨hawaits, hnear⟩ rfl rfl rfl
  | interrupted =>
    exact answer_advances hs hf rfl (Call.answers_interrupted hawaits (hpolicy rfl))
      fun h hno => nomatch hno
  | retired => exact giveUp_advances hs hf rfl rfl hfit hawaits hnear

/-- A call replaces the current holder, keeps it or starts again. -/
theorem swapping_advances {h : Nat} {keeps : Bool}
    (hf : s.lineage.frames t = ⟨call, .swapping h keeps⟩ :: rest) (hreplaces : call.Replaces)
    (hfree : ties.free) (hkeeps : keeps = (s.holder h).isCancelled) :
    Advances initializer ties s.lineage t
      (s.advance initializer t call (.swapping h keeps)).lineage := by
  simp only [System.advance]
  split
  · rename_i hcurrent
    subst hcurrent
    cases keeps with
    | true =>
      have hphase : (s.holder s.current).phase = .cancelled := of_decide_eq_true hkeeps.symm
      exact goTo_advances rfl hf rfl ⟨hreplaces, Or.inl ⟨hfree, hphase⟩⟩
        (fun _ hno => absurd rfl hno) (fun h hno => nomatch hno) fun hno => absurd rfl hno
    | false =>
      have hbare : (System.replacement call : Holder T E).bare = System.replacement call := by
        cases call <;> rfl
      simp only [Bool.false_eq_true, if_false]
      rw [(s.install _).lineage_goTo hf, s.lineage_install, hbare]
      exact .replaces hreplaces hf
  · exact goTo_advances_simply rfl hf hfree rfl rfl rfl

/-- A call was too late, or goes on with what it has replaced. -/
theorem swapped_advances {h : Nat} (hf : s.lineage.frames t = ⟨call, .swapped h⟩ :: rest)
    (hfit : ties.Fit s.lineage call) (hreplaces : call.Replaces)
    (hties : (ties.free ∧ (s.holder h).phase = .cancelled) ∨
      ties.near h ∧ (call = .reset → ties.due h)) :
    Advances initializer ties s.lineage t
      (s.advance initializer t call (.swapped h)).lineage := by
  simp only [System.advance]
  by_cases hphase : (s.holder h).phase = .cancelled
  · have hfree : ties.free := by
      rcases hties with ⟨hfree, -⟩ | ⟨hnear, -⟩
      · exact hfree
      · exact absurd hphase (hfit.live hreplaces h hnear)
    have hcancelled : (s.holder h).isCancelled = true := decide_eq_true hphase
    rw [if_pos hcancelled]
    refine answer_advances rfl hf rfl (Call.answers_tooLate hreplaces hfree) fun h' hsame => ?_
    cases hsame
    exact hphase
  · obtain ⟨hnear, hdue⟩ := hties.resolve_left fun hno => hphase hno.2
    have hlive : (s.holder h).isCancelled = false := decide_eq_false hphase
    simp only [hlive, Bool.false_eq_true, if_false]
    split
    · rename_i hreset
      exact goTo_advances rfl hf rfl ⟨hreset, hnear, hdue hreset⟩ (fun _ _ => rfl)
        (fun h hno => nomatch hno) fun hno => absurd rfl hno
    · rename_i hcancel
      exact goTo_advances rfl hf rfl ⟨hreplaces, hnear⟩ (fun hno => absurd hno hcancel)
        (fun h hno => nomatch hno) fun hno => absurd rfl hno

theorem advance_advances (hf : s.lineage.frames t = ⟨call, stage⟩ :: rest)
    (hfit : ties.Fit s.lineage call) (hallowed : stage.Allowed initializer ties s.lineage call) :
    Advances initializer ties s.lineage t (s.advance initializer t call stage).lineage := by
  cases stage with
  | start => exact launch_advances hf hfit hallowed
  | peeking h => exact peeking_advances hf hallowed.1 hallowed.2
  | entering h =>
    obtain ⟨hawaits, hnear⟩ := hallowed
    simp only [System.advance]
    split
    · rename_i o ho
      exact answer_advances rfl hf rfl (Call.answers_outcome hawaits hnear ho)
        fun h hno => nomatch hno
    · split <;> exact goTo_advances_simply rfl hf ⟨hawaits, hnear⟩ rfl rfl rfl
  | checking h =>
    obtain ⟨hawaits, hnear⟩ := hallowed
    simp only [System.advance]
    split
    · exact giveUp_advances rfl hf rfl rfl hfit hawaits hnear
    · exact goTo_advances_simply rfl hf ⟨hawaits, hnear⟩ rfl rfl rfl
  | choosing h => exact choosing_advances hf hfit hallowed.1 hallowed.2
  | claiming h => exact claiming_advances hf hfit hallowed.1 hallowed.2
  | rechecking h =>
    simp only [System.advance]
    split
    · exact goTo_advances rfl hf rfl hallowed (fun _ hno => absurd rfl hno)
        (fun h hno => nomatch hno) fun _ => ⟨h, rfl, Or.inl rfl⟩
    · rename_i hretired
      refine goTo_advances rfl hf rfl hallowed (fun _ hno => absurd rfl hno) (fun h' hsame => ?_)
        fun _ => ⟨h, rfl, Or.inr rfl⟩
      cases hsame
      exact Bool.eq_false_iff.2 hretired
  | handingBack h =>
    simp only [System.advance]
    rw [s.lineage_goTo_updateHolder hf]
    exact .handsBack hf
  | arming h =>
    obtain ⟨-, -, hnone, harmed⟩ := hallowed
    have hnone' : (s.holder h).outcome = none := hnone
    have harmed' : (s.holder h).armed = true := harmed
    simp only [System.advance, hnone', harmed', if_true]
    rw [(s.enter h).2.lineage_goTo hf, s.lineage_enter]
    exact .enters hf
  | running h purpose run calls =>
    obtain ⟨-, -, -, -, hpurpose, -⟩ := hallowed
    exact running_advances hf hpurpose
  | publishing h o =>
    simp only [System.advance]
    rw [s.lineage_goTo_updateHolder hf]
    exact .publishes hf
  | completing h o =>
    simp only [System.advance]
    rw [s.lineage_goTo_updateHolder hf]
    exact .completes hf
  | draining h after =>
    exact goTo_advances_simply (s.lineage_updateWaiters h _) hf hallowed rfl rfl rfl
  | waking threads after => exact waking_advances hf hfit hallowed
  | registering h =>
    exact goTo_advances_simply (s.lineage_updateWaiters h _) hf hallowed rfl rfl rfl
  | watching h =>
    obtain ⟨hawaits, hnear⟩ := hallowed
    simp only [System.advance]
    split
    · exact goTo_advances_simply rfl hf ⟨hawaits, hnear⟩ rfl rfl rfl
    · exact goTo_advances_simply rfl hf ⟨hawaits, hnear, fun hno => nomatch hno⟩ rfl rfl rfl
  | watchingRetired h =>
    obtain ⟨hawaits, hnear⟩ := hallowed
    simp only [System.advance]
    split
    · exact goTo_advances_simply rfl hf ⟨hawaits, hnear, fun hno => nomatch hno⟩ rfl rfl rfl
    · exact goTo_advances_simply rfl hf ⟨hawaits, hnear⟩ rfl rfl rfl
  | watchingStatus h =>
    obtain ⟨hawaits, hnear⟩ := hallowed
    simp only [System.advance]
    split
    · rename_i hinterrupted
      exact goTo_advances_simply rfl hf
        ⟨hawaits, hnear, fun _ => (Bool.and_eq_true_iff.1 hinterrupted).1⟩ rfl rfl rfl
    · exact goTo_advances_simply rfl hf ⟨hawaits, hnear⟩ rfl rfl rfl
  | parked h =>
    simp only [System.advance]
    split
    · exact goTo_advances_simply (s.lineage_updateStatus t _) hf hallowed rfl rfl rfl
    · exact .stays
  | leaving h wake => exact leaving_advances hf hfit hallowed.1 hallowed.2.1 hallowed.2.2
  | testing h =>
    obtain ⟨hreplaces, hfree, hinstalled⟩ := hallowed
    exact goTo_advances_simply rfl hf ⟨hreplaces, hfree, hinstalled, rfl⟩ rfl rfl rfl
  | swapping h keeps =>
    obtain ⟨hreplaces, hfree, -, hkeeps⟩ := hallowed
    exact swapping_advances hf hreplaces hfree hkeeps
  | swapped h => exact swapped_advances hf hfit hallowed.1 hallowed.2
  | counting h =>
    let counted : System T E := { s with generation := s.generation + 1 }
    show Advances initializer ties s.lineage t (counted.goTo t (.retiring h)).lineage
    rw [counted.lineage_goTo hf]
    exact .counts hf
  | retiring h =>
    simp only [System.advance]
    rw [s.lineage_goTo_updateHolder hf]
    exact .retires hf
  | unparking u =>
    exact answer_advances (s.lineage_updateStatus u _) hf rfl
      (Call.answers_other hallowed.1 hallowed.2 _) fun h hno => nomatch hno
  | consuming h => exact hallowed.elim

/-- What a thread may do next, if the call that it makes stands where it may. -/
theorem stepThread_advances
    (hhead : ∀ call stage rest, s.lineage.frames t = ⟨call, stage⟩ :: rest →
      ties.Fit s.lineage call ∧ stage.Allowed initializer ties s.lineage call) :
    Advances initializer ties s.lineage t (s.stepThread initializer t).lineage := by
  rw [System.stepThread]
  split
  · rename_i call stage rest hf
    obtain ⟨hfit, hallowed⟩ := hhead call stage rest hf
    exact advance_advances hf hfit hallowed
  · rename_i call calls hf hcalls
    rw [s.lineage_begin_next t call calls hf]
    exact .begins hf hcalls
  · exact .stays

/-- The thread that moves in a turn. -/
def Turn.mover : Turn → Nat
  | thread t | claimFails t | wakes t => t
  | opens _ => 0

theorem step_advances (turn : Turn)
    (hhead : ∀ call stage rest, s.lineage.frames turn.mover = ⟨call, stage⟩ :: rest →
      ties.Fit s.lineage call ∧ stage.Allowed initializer ties s.lineage call) :
    Advances initializer ties s.lineage turn.mover (s.step initializer turn).lineage := by
  cases turn with
  | thread t => exact stepThread_advances hhead
  | claimFails t =>
    rw [System.step]
    split
    · rename_i call h rest hf
      obtain ⟨-, hawaits, hnear⟩ := hhead _ _ _ hf
      exact goTo_advances_simply rfl hf ⟨hawaits, hnear⟩ rfl rfl rfl
    · exact .stays
  | wakes t =>
    rw [System.step]
    split
    · rename_i call h rest hf
      obtain ⟨-, hawaits, hnear⟩ := hhead _ _ _ hf
      exact goTo_advances_simply rfl hf ⟨hawaits, hnear⟩ rfl rfl rfl
    · exact .stays
  | opens gate => exact .stays

end Steps

end SharedCells.Lazy
