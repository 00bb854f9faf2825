import SharedCells.Proofs.Lazy.Interruption.World
import SharedCells.Proofs.Lazy.Waiting.Roster

/-!
# Calls for a value, from their begin to their end

A `Query` is one call for the value of a reference in a world. While it lasts, it is either on its
`Track`, and what it has come upon so far is known, or it computes an outcome, or has done so, and
then it will not be told that it was interrupted (`Query.Trail.step`).
-/

namespace SharedCells.Lazy

/-! ## The call of a thread in one turn -/

section Turns

variable {T E : Type} {initializer : Nat → Routine T E} {l l' : Lineage T E} {flag : Bool}
  {t : Nat} {call : Call} {stage stage' : Stage T E} {rest : List (Frame T E)}

/-- What a turn of a thread does to its innermost call. -/
inductive Effect.OnCall (initializer : Nat → Routine T E) (l : Lineage T E) (flag : Bool) (t : Nat)
    (call : Call) (stage : Stage T E) (rest : List (Frame T E)) (l' : Lineage T E) : Prop
  | stays : l'.frames t = ⟨call, stage⟩ :: rest →
    OnCall initializer l flag t call stage rest l'
  | nests {c : Call} {h run : Nat} {purpose : Purpose} {cs : List Call} :
    stage = .running h purpose run (c :: cs) →
      l'.frames t = ⟨c, .start⟩ :: ⟨call, .running h purpose run cs⟩ :: rest →
        OnCall initializer l flag t call stage rest l'
  | goes {stage' : Stage T E} : stage.Next initializer l flag call stage' →
    l'.frames t = ⟨call, stage'⟩ :: rest → OnCall initializer l flag t call stage rest l'
  | changes {h : Nat} {holder : Holder T E} {stage' : Stage T E} :
    stage.Changes call h (l.holders h) holder stage' →
      l'.frames t = ⟨call, stage'⟩ :: rest → OnCall initializer l flag t call stage rest l'
  | installs : stage = .swapping l.current false →
    l'.frames t = ⟨call, .swapped l.current⟩ :: rest →
      OnCall initializer l flag t call stage rest l'
  | ends {a : Answer T E} : stage.Ends l a → l'.frames t = rest →
    (∃ caller, l'.log = l.log ++ [⟨caller, call, a⟩]) →
      OnCall initializer l flag t call stage rest l'

theorem Orderly.onCall (h : Orderly l) (heffect : Effect initializer l flag t l')
    (hf : l.frames t = ⟨call, stage⟩ :: rest) :
    Effect.OnCall initializer l flag t call stage rest l' := by
  have hsame : ∀ {call' : Call} {stage' : Stage T E} {rest' : List (Frame T E)},
      l.frames t = ⟨call', stage'⟩ :: rest' → call' = call ∧ stage' = stage ∧ rest' = rest := by
    intro call' stage' rest' hf'
    obtain ⟨hframe, hrest⟩ := List.cons.inj (hf'.symm.trans hf)
    exact ⟨(Frame.mk.inj hframe).1, (Frame.mk.inj hframe).2, hrest⟩
  cases heffect with
  | stays => exact .stays hf
  | begins hno => cases hf.symm.trans hno
  | nests hf' =>
    obtain ⟨rfl, hstage, rfl⟩ := hsame hf'
    exact .nests hstage.symm (l.frames_put_self ..)
  | goes halike hf' hnext =>
    obtain ⟨rfl, rfl, rfl⟩ := hsame hf'
    exact .goes hnext (Lineage.frames_put_self ..)
  | changes hf' hchanges =>
    obtain ⟨rfl, rfl, rfl⟩ := hsame hf'
    exact .changes hchanges (Lineage.frames_put_self ..)
  | installs hf' =>
    obtain ⟨rfl, hstage, rfl⟩ := hsame hf'
    exact .installs hstage.symm (Lineage.frames_put_self ..)
  | @answers l₀ call' stage' a rest' halike hf' hends =>
    obtain ⟨rfl, rfl, rfl⟩ := hsame hf'
    obtain ⟨caller, hcaller⟩ := callerOf_of_runs t (h.rest_runs hf)
    rw [Lineage.reply, hcaller]
    refine .ends hends (Lineage.frames_put_self ..) ⟨caller, ?_⟩
    exact congrArg (· ++ [Reply.mk caller call' a]) halike.log

/-- The frames below the innermost one stay as they are. -/
theorem Effect.OnCall.keeps_rest (h : OnCall initializer l flag t call stage rest l') :
    ∃ new, l'.frames t = new ++ rest := by
  cases h with
  | stays hf => exact ⟨[_], hf⟩
  | nests _ hf => exact ⟨[_, _], hf⟩
  | goes _ hf | changes _ hf | installs _ hf => exact ⟨[_], hf⟩
  | ends _ hf => exact ⟨[], hf⟩

/-- A thread that does not move makes the calls that it made. -/
theorem Effect.frames_of_ne {mover : Nat} (h : Effect initializer l flag mover l')
    (hne : t ≠ mover) : l'.frames t = l.frames t := by
  cases h with
  | stays => rfl
  | goes halike =>
    rw [halike.frames_put, Function.update_of_ne hne]
  | @answers l₀ call stage a rest halike =>
    obtain ⟨log, hreply, -⟩ := l₀.reply_eq mover rest call a
    rw [hreply, ← halike.frames]
    exact Function.update_of_ne hne ..
  | _ => exact Function.update_of_ne hne ..

/-- A call computes an outcome, or it has done so and ends with it. -/
def Stage.Concludes : Stage T E → Prop
  | arming _ | running _ _ _ _ | publishing _ _ | completing _ _ | draining _ (.answer _)
  | waking _ (.answer _) => True
  | _ => False

theorem Stage.Concludes.next (hconcludes : stage.Concludes)
    (h : stage.Next initializer l flag call stage') : stage'.Concludes := by
  cases h with
  | misses _ hstage | finds hstage | swapped hstage => exact hconcludes.elim
  | recalls | runs | lacks | concludes => trivial
  | @drains h after us => cases after with
    | answer a => trivial
    | _ => exact hconcludes.elim
  | @wakes u us after => cases after with
    | answer a => trivial
    | _ => exact hconcludes.elim
  | _ => exact hconcludes.elim

theorem Stage.Concludes.changes (hconcludes : stage.Concludes) {h : Nat}
    {holder holder' : Holder T E} (hchanges : stage.Changes call h holder holder' stage') :
    stage'.Concludes := by
  cases hchanges with
  | publishes | completes => trivial
  | _ => exact hconcludes.elim

end Turns

/-- A call for the value of a reference in a world. -/
structure Query (ι : Type) (T E : ι → Type) where
  world : World ι T E
  initializer : (i : ι) → Nat → Routine (T i) (E i)
  /-- The reference. -/
  site : ι
  /-- The thread that makes the call. -/
  thread : Nat
  policy : Policy
  /-- The calls of the thread that have begun before. -/
  below : List (Frame (T site) (E site))

namespace Query

variable {ι : Type} {T E : ι → Type} [DecidableEq ι] (q : Query ι T E)

/-- The world after some events. -/
def after (events : List (ι × Turn)) : World ι T E := q.world.run q.initializer events

def lineage (events : List (ι × Turn)) : Lineage (T q.site) (E q.site) :=
  (q.after events).lineage q.site

/-- The call has come to a stage, and makes no other call. -/
def At (events : List (ι × Turn)) (stage : Stage (T q.site) (E q.site)) : Prop :=
  (q.lineage events).frames q.thread = ⟨.get q.policy, stage⟩ :: q.below

/-- The call is made from its begin to its end. -/
structure Spans (events : List (ι × Turn)) (last : ι × Turn) (a : Answer (T q.site) (E q.site)) :
    Prop where
  /-- It has just begun. -/
  begins : q.At [] .start
  /-- It has not ended before the last event. -/
  lasts : ∀ before, before <+: events →
    q.below.length < ((q.lineage before).frames q.thread).length
  /-- It has ended then. -/
  ends : ((q.lineage (events ++ [last])).frames q.thread).length ≤ q.below.length
  answers : ∃ caller, (q.lineage (events ++ [last])).log =
    (q.lineage events).log ++ [⟨caller, .get q.policy, a⟩]

/-! ## What the call has come upon -/

/-- A holder was current while the call was made. -/
def Looked (k : Nat) (events : List (ι × Turn)) : Prop :=
  ∃ looked, looked <+: events ∧ (q.lineage looked).current = k

/-- The call has looked for the outcome of a holder, which had none. -/
def Missed (k : Nat) (events : List (ι × Turn)) : Prop :=
  ∃ entered, entered <+: events ∧ q.Looked k entered ∧ q.At entered (.entering k) ∧
    ((q.lineage entered).holders k).outcome = none

/-- A holder is being resolved, and another thread holds the claim. -/
def Rivalled (k : Nat) (events : List (ι × Turn)) : Prop :=
  ((q.lineage events).holders k).phase = .resolving ∧
    ∃ u, u ≠ q.thread ∧ ∃ f ∈ (q.lineage events).frames u, f.stage.Resolves k

/-- The call was at one stage; then an event took it to another, where it has stayed since. -/
def Moved (before events : List (ι × Turn)) (stage stage' : Stage (T q.site) (E q.site)) : Prop :=
  q.At before stage ∧ ∃ event, before ++ [event] <+: events ∧
    ∀ between, before ++ [event] <+: between → between <+: events → q.At between stage'

/-- The call, which waits for a holder, has looked whether it is being resolved, and it was. -/
structure Waits (k : Nat) (watched events : List (ι × Turn)) : Prop where
  missed : q.Missed k watched
  rivalled : q.Rivalled k watched
  watches : q.Moved watched events (.watching k) (.watchingRetired k)

/-- The call has looked next whether the holder is retired, and it was not, if that matters. -/
structure Sees (k : Nat) (watched seen events : List (ι × Turn)) : Prop
    extends q.Waits k watched seen where
  unretired : q.policy.leaveOnRetire = true → ((q.lineage seen).holders k).retired = false
  sees : q.Moved seen events (.watchingRetired k) (.watchingStatus k)

/-- The call has looked next whether its thread was interrupted, and it was. -/
structure Notices (k : Nat) (watched seen noticed events : List (ι × Turn)) : Prop
    extends q.Sees k watched seen noticed where
  flagged : (q.after noticed).flag q.thread = true
  notices : q.Moved noticed events (.watchingStatus k) (.leaving k .interrupted)

/-- What the call has come upon when it is at a stage. -/
def Track (events : List (ι × Turn)) : Stage (T q.site) (E q.site) → Prop
  | .start | .draining _ (.giveUp _) | .waking _ (.giveUp _) | .leaving _ .retired => True
  | .peeking k | .entering k | .leaving k .ready => q.Looked k events
  | .checking k | .choosing k | .claiming k | .rechecking k | .handingBack k | .registering k
  | .watching k | .parked k => q.Missed k events
  | .watchingRetired k => ∃ watched, q.Waits k watched events
  | .watchingStatus k => ∃ watched seen, q.Sees k watched seen events
  | .leaving k .interrupted => ∃ watched seen noticed, q.Notices k watched seen noticed events
  | _ => False

/-- The call makes no other call, and computes nothing. -/
def Alone (events : List (ι × Turn)) : Prop :=
  ∀ before, before <+: events → ∃ stage, q.At before stage ∧ ∀ h, ¬stage.Computes h

/-- The call is on its track, or it has an outcome of its own. -/
inductive Trail (events : List (ι × Turn)) : Prop
  | tracks {stage : Stage (T q.site) (E q.site)} : q.At events stage → q.Track events stage →
    q.Alone events → Trail events
  | concludes (above : List (Frame (T q.site) (E q.site))) {stage : Stage (T q.site) (E q.site)} :
    (q.lineage events).frames q.thread = above ++ ⟨.get q.policy, stage⟩ :: q.below →
      stage.Concludes → Trail events

variable {q} {k : Nat} {events watched seen noticed : List (ι × Turn)} {event : ι × Turn}
  {stage stage' : Stage (T q.site) (E q.site)}

theorem Looked.mono (h : q.Looked k events) (event : ι × Turn) :
    q.Looked k (events ++ [event]) := by
  obtain ⟨looked, hbefore, hcurrent⟩ := h
  exact ⟨looked, hbefore.trans (List.prefix_append ..), hcurrent⟩

theorem Missed.of_prefix (h : q.Missed k watched) (hearlier : watched <+: events) :
    q.Missed k events := by
  obtain ⟨entered, hbefore, hmissed⟩ := h
  exact ⟨entered, hbefore.trans hearlier, hmissed⟩

theorem Missed.mono (h : q.Missed k events) (event : ι × Turn) :
    q.Missed k (events ++ [event]) :=
  h.of_prefix (List.prefix_append ..)

theorem Missed.looked (h : q.Missed k events) : q.Looked k events := by
  obtain ⟨entered, hbefore, ⟨looked, hlooked, hcurrent⟩, -⟩ := h
  exact ⟨looked, hlooked.trans hbefore, hcurrent⟩

/-- A call that goes on to another stage has moved there. -/
theorem At.moved (hat : q.At events stage) (hat' : q.At (events ++ [event]) stage') :
    q.Moved events (events ++ [event]) stage stage' := by
  refine ⟨hat, event, List.prefix_rfl, fun between hlater hbetween => ?_⟩
  obtain rfl := hbetween.eq_of_length_le hlater.length_le
  exact hat'

theorem Moved.earlier (h : q.Moved watched events stage stage') : watched <+: events := by
  obtain ⟨-, event, hbefore, -⟩ := h
  exact (List.prefix_append watched [event]).trans hbefore

/-- The call stays where it has gone. -/
theorem Moved.mono (h : q.Moved watched events stage stage')
    (hat : q.At (events ++ [event]) stage') :
    q.Moved watched (events ++ [event]) stage stage' := by
  obtain ⟨hwas, event', hbefore, hstays⟩ := h
  refine ⟨hwas, event', hbefore.trans (List.prefix_append ..), fun between hlater hbetween => ?_⟩
  rcases List.prefix_concat_iff.1 hbetween with rfl | hearlier
  · exact hat
  · exact hstays between hlater hearlier

theorem Sees.missed_now (h : q.Sees k watched seen events) : q.Missed k events :=
  h.missed.of_prefix (h.watches.earlier.trans h.sees.earlier)

/-- What the call has come upon it has come upon later, too. -/
theorem Track.mono (h : q.Track events stage) (hat : q.At (events ++ [event]) stage) :
    q.Track (events ++ [event]) stage := by
  cases stage with
  | start => trivial
  | draining h' after | waking threads after =>
    cases after with
    | giveUp h' => trivial
    | _ => exact h.elim
  | peeking k | entering k => exact Looked.mono h event
  | checking k | choosing k | claiming k | rechecking k | handingBack k | registering k
  | watching k | parked k => exact Missed.mono h event
  | watchingRetired k =>
    obtain ⟨watched, hwaits⟩ := h
    exact ⟨watched, hwaits.missed, hwaits.rivalled, hwaits.watches.mono hat⟩
  | watchingStatus k =>
    obtain ⟨watched, seen, hsees⟩ := h
    exact ⟨watched, seen, hsees.toWaits, hsees.unretired, hsees.sees.mono hat⟩
  | leaving k wake =>
    cases wake with
    | ready => exact Looked.mono h event
    | retired => trivial
    | interrupted =>
      obtain ⟨watched, seen, noticed, hnotices⟩ := h
      exact ⟨watched, seen, noticed, hnotices.toSees, hnotices.flagged,
        hnotices.notices.mono hat⟩
  | _ => exact h.elim

theorem Track.not_computes (h : q.Track events stage) (k : Nat) : ¬stage.Computes k := by
  cases stage with
  | arming h' | running h' purpose run calls | publishing h' o | completing h' o => exact h.elim
  | _ => exact id

theorem Alone.mono (h : q.Alone events) (hat : q.At (events ++ [event]) stage)
    (hnot : ∀ k, ¬stage.Computes k) : q.Alone (events ++ [event]) := by
  intro before hbefore
  rcases List.prefix_concat_iff.1 hbefore with rfl | hearlier
  · exact ⟨stage, hat, hnot⟩
  · exact h before hearlier

/-! ## Turns of the call -/

section Turns

variable (horderly : ∀ i, Orderly ((q.after events).lineage i))
  (hat : q.At events stage) (htrack : q.Track events stage)
  (hat' : q.At (events ++ [event]) stage')

/-- Whoever is seen resolving a holder is another thread. -/
theorem At.rivalled (horderly : Orderly (q.lineage events)) (hat : q.At events (.watching k))
    (hphase : ((q.lineage events).holders k).phase = .resolving) : q.Rivalled k events := by
  obtain ⟨u, f, hmem, hresolves⟩ := horderly.resolving k hphase
  refine ⟨hphase, u, ?_, f, hmem, hresolves⟩
  rintro rfl
  rw [hat] at hmem
  rcases List.mem_cons.1 hmem with rfl | hbelow
  · exact hresolves
  · -- A call for the value is not made by an initializer.
    refine (horderly.head hat).lone.outermost ?_ trivial
    exact List.length_pos_of_mem hbelow

include hat htrack hat' in
/-- A call that goes on stays on its track, unless it is to compute an outcome. -/
theorem Track.next (horderly : Orderly (q.lineage events))
    (hnext : stage.Next (q.initializer q.site) (q.lineage events)
      ((q.after events).flag q.thread) (.get q.policy) stage') :
    q.Track (events ++ [event]) stage' ∨ stage'.Concludes := by
  cases hnext with
  | looks => exact Or.inl ⟨events, List.prefix_append .., rfl⟩
  | tests hno | usesUp hno | raises hno => exact absurd trivial hno
  | enters => exact Or.inl (Looked.mono htrack event)
  | @misses k _ hnone hstage =>
    have hmissed : q.Missed k (events ++ [event]) :=
      ⟨events, List.prefix_append .., htrack, hat, hnone⟩
    rcases hstage with rfl | rfl <;> exact Or.inl hmissed
  | finds_retired | moves => exact Or.inl trivial
  | chooses | registers | renounces => exact Or.inl (Missed.mono htrack event)
  | @finds k _ hstage =>
    have hmissed : q.Missed k (events ++ [event]) := Missed.mono htrack event
    rcases hstage with rfl | rfl | rfl
    · exact Or.inl hmissed
    · exact Or.inl hmissed
    · exact Or.inl hmissed.looked
  | fails => exact Or.inl (Missed.mono htrack event).looked
  | insists | recalls | runs | lacks | concludes => exact Or.inr trivial
  | @drains h after us =>
    cases after with
    | giveUp h' => exact Or.inl trivial
    | _ => exact htrack.elim
  | @wakes u us after =>
    cases after with
    | giveUp h' => exact Or.inl trivial
    | _ => exact htrack.elim
  | retries => exact Or.inl trivial
  | watches hphase =>
    exact Or.inl ⟨events, htrack, hat.rivalled horderly hphase, hat.moved hat'⟩
  | released => exact Or.inl (Missed.mono htrack event).looked
  | replaced => exact Or.inl trivial
  | remains hunretired =>
    obtain ⟨watched, hwaits⟩ := htrack
    exact Or.inl ⟨watched, events, hwaits, hunretired, hat.moved hat'⟩
  | notices hinterruptible hflag =>
    obtain ⟨watched, seen, hsees⟩ := htrack
    exact Or.inl ⟨watched, seen, events, hsees, hflag, hat.moved hat'⟩
  | parks =>
    obtain ⟨watched, seen, hsees⟩ := htrack
    exact Or.inl (hsees.missed_now.mono event)
  | unparks => exact Or.inl (Missed.mono htrack event)
  | returns => exact Or.inl (Looked.mono htrack event)
  | resolves | tested | spares | loses | swapped | counts | consumes => exact htrack.elim

include htrack in
theorem Track.changes {h : Nat} {holder holder' : Holder (T q.site) (E q.site)}
    (hchanges : stage.Changes (.get q.policy) h holder holder' stage') :
    q.Track (events ++ [event]) stage' ∨ stage'.Concludes := by
  cases hchanges with
  | claims hphase hstage =>
    rcases hstage with ⟨rfl, -⟩ | rfl
    · exact Or.inl (Missed.mono htrack event)
    · exact Or.inr trivial
  | handsBack => exact Or.inl trivial
  | publishes | completes => exact Or.inr trivial
  | retires => exact htrack.elim

end Turns

/-- What an event does to the calls of a thread: nothing, unless the thread moves there. -/
theorem effect (horderly : ∀ i, Orderly ((q.after events).lineage i)) (event : ι × Turn) :
    (q.lineage (events ++ [event])).frames q.thread = (q.lineage events).frames q.thread ∨
      Effect (q.initializer q.site) (q.lineage events) ((q.after events).flag q.thread) q.thread
        (q.lineage (events ++ [event])) := by
  have hstep : q.lineage (events ++ [event]) =
      ((q.after events).step q.initializer event).lineage q.site :=
    congrArg (World.lineage · q.site) (q.world.run_append_singleton events event)
  rw [hstep]
  rcases World.effect (q.after events) horderly event q.site with
    ⟨-, heffect⟩ | ⟨-, hsame⟩
  · by_cases hmover : q.thread = event.2.mover
    · rw [← hmover] at heffect
      exact Or.inr heffect
    · exact Or.inl (heffect.frames_of_ne hmover)
  · exact Or.inl (congrArg (Lineage.frames · q.thread) hsame)

theorem Trail.step (horderly : ∀ i, Orderly ((q.after events).lineage i))
    (h : q.Trail events)
    (hlong : q.below.length < ((q.lineage (events ++ [event])).frames q.thread).length) :
    q.Trail (events ++ [event]) := by
  have hsite : Orderly (q.lineage events) := horderly q.site
  cases h with
  | @tracks stage hat htrack halone =>
    have hgoes : ∀ stage', q.At (events ++ [event]) stage' →
        q.Track (events ++ [event]) stage' ∨ stage'.Concludes → q.Trail (events ++ [event]) := by
      rintro stage' hat' (htrack' | hconcludes)
      · exact .tracks hat' htrack' (halone.mono hat' htrack'.not_computes)
      · exact .concludes [] hat' hconcludes
    rcases q.effect horderly event with hsame | heffect
    · exact hgoes stage (hsame.trans hat) (Or.inl (htrack.mono (hsame.trans hat)))
    · cases hsite.onCall heffect hat with
      | stays hat' => exact hgoes stage hat' (Or.inl (htrack.mono hat'))
      | nests hstage => subst hstage; exact htrack.elim
      | goes hnext hat' => exact hgoes _ hat' (htrack.next hat hat' hsite hnext)
      | changes hchanges hat' => exact hgoes _ hat' (htrack.changes hchanges)
      | installs hstage => subst hstage; exact htrack.elim
      | ends _ hrest =>
        rw [hrest] at hlong
        exact absurd hlong (Nat.lt_irrefl _)
  | @concludes above stage hframes hconcludes =>
    rcases q.effect horderly event with hsame | heffect
    · exact .concludes above (hsame.trans hframes) hconcludes
    · cases above with
      | nil =>
        cases hsite.onCall heffect hframes with
        | stays hat' => exact .concludes [] hat' hconcludes
        | nests hstage hat' => exact .concludes [_] hat' trivial
        | goes hnext hat' => exact .concludes [] hat' (hconcludes.next hnext)
        | changes hchanges hat' =>
          exact .concludes [] hat' (hconcludes.changes hchanges)
        | installs hstage => subst hstage; exact hconcludes.elim
        | ends _ hrest =>
          rw [hrest] at hlong
          exact absurd hlong (Nat.lt_irrefl _)
      | cons f above =>
        have hframes' : (q.lineage events).frames q.thread =
            ⟨f.call, f.stage⟩ :: (above ++ ⟨.get q.policy, stage⟩ :: q.below) := hframes
        obtain ⟨new, hnew⟩ := (hsite.onCall heffect hframes').keeps_rest
        refine .concludes (new ++ above) ?_ hconcludes
        rw [hnew, List.append_assoc]

theorem Spans.trail {last : ι × Turn} {a : Answer (T q.site) (E q.site)}
    (h : q.Spans events last a) (horderly : ∀ before i, Orderly ((q.after before).lineage i)) :
    ∀ before, before <+: events → q.Trail before := by
  intro before
  induction before using List.reverseRecOn with
  | nil =>
    refine fun _ => .tracks h.begins trivial fun before hbefore => ?_
    obtain rfl := List.prefix_nil.1 hbefore
    exact ⟨.start, h.begins, fun k => id⟩
  | append_singleton before event ih =>
    intro hinitial
    exact (ih ((List.prefix_append before [event]).trans hinitial)).step (horderly before)
      (h.lasts _ hinitial)

/-- The last event is a turn of the thread at the reference. -/
theorem Spans.effect {last : ι × Turn} {a : Answer (T q.site) (E q.site)}
    (h : q.Spans events last a) (horderly : ∀ i, Orderly ((q.after events).lineage i)) :
    Effect (q.initializer q.site) (q.lineage events) ((q.after events).flag q.thread) q.thread
      (q.lineage (events ++ [last])) := by
  refine (q.effect horderly last).resolve_left fun hsame => ?_
  have hlong := h.lasts events List.prefix_rfl
  have hshort := h.ends
  rw [hsame] at hshort
  omega

/-- The call that ends with an interruption is the one at hand, and it leaves a holder for that
reason. -/
theorem Spans.ends_leaving {last : ι × Turn} {call : Call} {rest : List (Frame _ _)}
    (h : q.Spans events last .interrupted)
    (horderly : ∀ i, Orderly ((q.after events).lineage i))
    (hframes : (q.lineage events).frames q.thread = ⟨call, stage⟩ :: rest)
    (hlength : q.below.length ≤ rest.length) :
    rest.length = q.below.length ∧ ∃ k, stage = .leaving k .interrupted := by
  have hsite : Orderly (q.lineage events) := horderly q.site
  have hshort := h.ends
  cases hsite.onCall (h.effect horderly) hframes with
  | stays hf | goes _ hf | changes _ hf | installs _ hf | nests _ hf =>
    rw [hf] at hshort
    simp only [List.length_cons] at hshort
    omega
  | ends hstage hf hlog =>
    rw [hf] at hshort
    obtain ⟨caller, hlog⟩ := hlog
    obtain ⟨caller', hlog'⟩ := h.answers
    have hreply := List.singleton_inj.1 (List.append_cancel_left (hlog.symm.trans hlog'))
    obtain ⟨-, -, rfl⟩ := Reply.mk.inj hreply
    exact ⟨by omega, hsite.leaving_of_ends (hsite.head hframes).stands hstage⟩

/-- A call that ends with an interruption has noticed it while it waited. -/
theorem Spans.leaves {last : ι × Turn} (h : q.Spans events last .interrupted)
    (horderly : ∀ before i, Orderly ((q.after before).lineage i)) :
    q.Alone events ∧ ∃ k watched seen noticed, q.Notices k watched seen noticed events := by
  cases h.trail horderly events List.prefix_rfl with
  | tracks hat htrack halone =>
    obtain ⟨-, k, rfl⟩ := h.ends_leaving (horderly events) hat (Nat.le_refl _)
    exact ⟨halone, k, htrack⟩
  | @concludes above stage hframes hconcludes =>
    cases above with
    | nil =>
      obtain ⟨-, k, rfl⟩ := h.ends_leaving (horderly events) hframes (Nat.le_refl _)
      exact hconcludes.elim
    | cons f above =>
      -- Calls that the initializer makes end above the call itself.
      have hframes' : (q.lineage events).frames q.thread =
          ⟨f.call, f.stage⟩ :: (above ++ ⟨.get q.policy, stage⟩ :: q.below) := hframes
      have hlength : (above ++ (⟨.get q.policy, stage⟩ : Frame _ _) :: q.below).length =
          above.length + (q.below.length + 1) := by
        rw [List.length_append, List.length_cons]
      obtain ⟨hsame, -⟩ := h.ends_leaving (horderly events) hframes' (by omega)
      omega

end Query

end SharedCells.Lazy
