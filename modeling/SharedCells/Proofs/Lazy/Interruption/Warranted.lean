import Mathlib.Data.List.Infix
import SharedCells.Proofs.Lazy.Interruption.Queries

/-!
# Who is interrupted, and who is told so

`World.run_interruptions` is about any number of references of either sort and any number of
threads, when the initializers make no calls that wait on their own reference. The status of a
thread tells whether it was interrupted since it has lowered its status; only the calls for that
change it. Only a call that may be interrupted is told so, and only while it waits for a holder
(`Query.Warranted`).

A caller that waits looks three times, and at one thing each time: whether the holder is being
resolved, whether it is retired, and whether its own thread was interrupted. `Query.Warranted` says
what was so at each of these looks. It does not say that all was so at once, nor that the
initializer was run: whoever had claimed the holder may hand the claim back, or may have completed
the holder when the caller looks at the status of its thread. Both happen, as
`World.interrupted_without_coincidence` shows.
-/

namespace SharedCells.Lazy

/-- Whoever holds a claim computes the outcome, or may hand the claim back. -/
theorem Stage.Resolves.cases {T E : Type} {k : Nat} {stage : Stage T E} (h : stage.Resolves k) :
    stage.Computes k ∨ stage = .rechecking k ∨ stage = .handingBack k := by
  cases stage with
  | rechecking h' =>
    obtain rfl : h' = k := h
    exact Or.inr (Or.inl rfl)
  | handingBack h' =>
    obtain rfl : h' = k := h
    exact Or.inr (Or.inr rfl)
  | arming h' | publishing h' o | completing h' o => exact Or.inl h
  | running h' purpose run calls =>
    cases purpose with
    | publish => exact Or.inl h
    | consume => exact h.elim
  | _ => exact h.elim

variable {ι : Type} {T E : ι → Type} [DecidableEq ι]

namespace Query

variable {q : Query ι T E} {k : Nat} {events watched seen noticed : List (ι × Turn)}

instance [∀ i, DecidableEq (T i)] [∀ i, DecidableEq (E i)] (events : List (ι × Turn))
    (stage : Stage (T q.site) (E q.site)) : Decidable (q.At events stage) :=
  inferInstanceAs (Decidable (_ = _))

/-- To last is to last at every moment, which can be tested. -/
theorem Spans.of_inits {last : ι × Turn} {a : Answer (T q.site) (E q.site)}
    (hbegins : q.At [] .start) (hlasts : ∀ before ∈ events.inits,
      q.below.length < ((q.lineage before).frames q.thread).length)
    (hends : ((q.lineage (events ++ [last])).frames q.thread).length ≤ q.below.length)
    (caller : Caller) (hanswers : (q.lineage (events ++ [last])).log =
      (q.lineage events).log ++ [⟨caller, .get q.policy, a⟩]) : q.Spans events last a :=
  ⟨hbegins, fun before hbefore => hlasts before ((List.mem_inits ..).2 hbefore), hends, caller,
    hanswers⟩

/-- What was so when a call for the value is told that its thread was interrupted. It waited for a
holder. When it last looked whether that was being resolved another thread had claimed it; at its
next look the holder was not retired, or it does not mind that; and at the next one the status of
its thread was raised. -/
structure Warranted (q : Query ι T E) (k : Nat) (watched seen noticed events : List (ι × Turn)) :
    Prop extends q.Notices k watched seen noticed events where
  /-- At the first of these looks another thread computed the outcome, or it held a claim that it
  might still give back, to look once more whether the holder is retired. It was giving the claim
  back only if the call does not mind that the holder is retired. -/
  rival : ∃ u, u ≠ q.thread ∧ ∃ f ∈ (q.lineage watched).frames u, f.stage.Computes k ∨
    f.call.policy.leaveOnRetire = true ∧
      (f.stage = .rechecking k ∨ f.stage = .handingBack k ∧ q.policy.leaveOnRetire = false)
  /-- When the call began the holder had no outcome. -/
  absent : ((q.lineage []).holders k).outcome = none
  /-- When the call began the reference was not cancelled. -/
  live : ((q.lineage []).holders (q.lineage []).current).phase ≠ .cancelled
  /-- The call itself never ran the initializer. -/
  alone : q.Alone events

/-- The call waits for a holder whose outcome another thread computes, while its own thread is
interrupted. A call may be told that it was interrupted without such a moment. -/
def Coincides (q : Query ι T E) (events : List (ι × Turn)) : Prop :=
  (q.after events).flag q.thread = true ∧ ∃ k, (∃ stage, q.At events stage ∧ stage.Waits k) ∧
    ∃ u, u ≠ q.thread ∧ ∃ f ∈ (q.lineage events).frames u, f.stage.Computes k

variable (hduring : ∀ i run, ∀ c ∈ (q.initializer i run).during, c.Offered ∧ ¬c.Awaits)
  (horderly : ∀ i, Orderly (q.world.lineage i))

include hduring horderly

theorem orderly_after (before : List (ι × Turn)) (i : ι) : Orderly ((q.after before).lineage i) :=
  World.orderly_run hduring horderly before i

theorem lasts_later {before later : List (ι × Turn)} (hbefore : before <+: later) :
    Lasts (q.lineage before) (q.lineage later) := by
  obtain ⟨more, rfl⟩ := hbefore
  have hlasts := World.lasts_run hduring (orderly_after hduring horderly before) more q.site
  rwa [after, ← World.run_append] at hlasts

theorem Notices.rival (h : q.Notices k watched seen noticed events) :
    ∃ u, u ≠ q.thread ∧ ∃ f ∈ (q.lineage watched).frames u, f.stage.Computes k ∨
      f.call.policy.leaveOnRetire = true ∧
        (f.stage = .rechecking k ∨ f.stage = .handingBack k ∧ q.policy.leaveOnRetire = false) := by
  have hwatched : Orderly (q.lineage watched) := orderly_after hduring horderly watched q.site
  obtain ⟨-, u, hne, f, hmem, hresolves⟩ := h.rivalled
  obtain ⟨d, hpoised⟩ := (hwatched.frames u).exists_of_mem hmem
  have hstands := hpoised.stands
  refine ⟨u, hne, f, hmem, ?_⟩
  rcases hresolves.cases with hcomputes | hstage | hstage
  · exact Or.inl hcomputes
  · rw [hstage] at hstands
    exact Or.inr ⟨hstands.2.2, Or.inl hstage⟩
  · rw [hstage] at hstands
    refine Or.inr ⟨hstands.2.2.1, Or.inr ⟨hstage, Bool.eq_false_iff.2 fun hleaves => ?_⟩⟩
    -- Whoever gives a claim back has found the holder retired, and it still is.
    have hretired := (lasts_later hduring horderly h.watches.earlier).retired k hstands.1
      hstands.2.2.2
    cases hretired.symm.trans (h.unretired hleaves)

theorem Missed.absent (h : q.Missed k events) : ((q.lineage []).holders k).outcome = none := by
  obtain ⟨entered, -, -, -, hnone⟩ := h
  by_contra hsome
  have hbegin : Orderly (q.lineage []) := horderly q.site
  rcases Nat.lt_or_ge k (q.lineage []).installed with hk | hk
  · exact (lasts_later hduring horderly List.nil_prefix).outcome k hk hsome hnone
  · exact hsome (hbegin.unmade k hk)

theorem Waits.live (h : q.Waits k watched events) :
    ((q.lineage []).holders (q.lineage []).current).phase ≠ .cancelled := by
  intro hcancelled
  obtain ⟨looked, -, hcurrent⟩ := h.missed.looked
  -- Nobody replaces a cancelled holder, so the call has come upon that one.
  have hstays : (q.lineage looked).current = (q.lineage []).current :=
    World.current_run hduring horderly hcancelled looked
  have hlasts := lasts_later hduring horderly (List.nil_prefix (l := watched))
  have hphase := (hlasts.cancelled _ (horderly q.site).current).2 hcancelled
  have hk : k = (q.world.lineage q.site).current := hcurrent.symm.trans hstays
  rw [← hk, h.rivalled.1] at hphase
  cases hphase

theorem Spans.warranted {last : ι × Turn} (h : q.Spans events last .interrupted) :
    ∃ k watched seen noticed, q.Warranted k watched seen noticed events := by
  obtain ⟨halone, k, watched, seen, noticed, hnotices⟩ :=
    h.leaves (orderly_after hduring horderly)
  exact ⟨k, watched, seen, noticed, hnotices, hnotices.rival hduring horderly,
    hnotices.missed.absent hduring horderly, hnotices.toWaits.live hduring horderly, halone⟩

end Query

namespace World

/-- At first no holder is being resolved, and only the first one may have an outcome, a value. -/
theorem holder_start {T E : Type} (source : Option T) (threads : Table (Thread T E)) (h : Nat) :
    ((System.start source threads).holder h).phase ≠ .resolving ∧
      ((System.start source threads).holder h).outcome ≠ some (.error .interrupted) ∧
      (h ≠ 0 → ((System.start source threads).holder h).outcome = none) := by
  cases source with
  | none =>
    have hholder : (System.start none threads).holder h = .fresh := by
      show ((Table.of (Holder.fresh : Holder T E)).set 0 .fresh).get h = .fresh
      rw [Table.get_set]
      split <;> rfl
    rw [hholder]
    exact ⟨nofun, nofun, fun _ => rfl⟩
  | some v =>
    have hholder : (System.start (some v) threads).holder h =
        if h = 0 then .resolved ⟨0, v⟩ else .fresh := Table.get_set ..
    rw [hholder]
    split
    · rename_i hzero
      exact ⟨nofun, nofun, fun hno => absurd hzero hno⟩
    · exact ⟨nofun, nofun, fun _ => rfl⟩

theorem orderly_start {T E : Type} {source : Option T} {threads : Table (Thread T E)}
    (hthreads : ∀ t, (threads.get t).frames = [] ∧ ∀ c ∈ (threads.get t).calls, c.Offered) :
    Orderly (System.start source threads).lineage := by
  have hthread : ∀ t, (System.start source threads).thread t = threads.get t := fun t => by
    cases source <;> rfl
  have hframes : ∀ t, (System.start source threads).lineage.frames t = [] := fun t =>
    (congrArg Thread.frames (hthread t)).trans (hthreads t).1
  have hcalls : ∀ t, (System.start source threads).lineage.calls t = (threads.get t).calls :=
    fun t => congrArg Thread.calls (hthread t)
  have hcounts : (System.start source threads).lineage.installed = 1 ∧
      (System.start source threads).lineage.current = 0 ∧
      (System.start source threads).lineage.log = [] := by
    cases source <;> exact ⟨rfl, rfl, rfl⟩
  obtain ⟨hinstalled, hcurrent, hlog⟩ := hcounts
  refine ⟨fun t => ?_, fun t => ?_, fun t => ?_, ?_, fun h hle => ?_, fun h => ?_, fun h => ?_, ?_⟩
  · rw [hcalls]
    exact (hthreads t).2
  · rw [hframes]
    trivial
  · rw [hframes]
    exact fun f hno => nomatch hno
  · rw [hinstalled, hcurrent]
    exact Nat.zero_lt_one
  · rw [hinstalled] at hle
    exact (holder_start source threads h).2.2 (Nat.ne_of_gt hle)
  · exact (holder_start source threads h).2.1
  · exact fun hno => absurd hno (holder_start source threads h).1
  · rw [hlog]
    exact fun r hno => nomatch hno

/-- What is true of interruptions after some events. -/
structure Interruptions (initializer : (i : ι) → Nat → Routine (T i) (E i)) (w : World ι T E)
    (events : List (ι × Turn)) : Prop where
  /-- A thread is interrupted if its status was raised and not lowered since, and only then. -/
  status : ∀ t, (w.run initializer events).flag t = true ↔ w.Interrupted initializer events t
  /-- Nothing but the first step of a call that raises or lowers the status of a thread changes
  it. -/
  kept : ∀ event t, ¬(w.run initializer events).Raises event t →
    ¬(w.run initializer events).Lowers event t →
      ((w.run initializer events).step initializer event).flag t =
        (w.run initializer events).flag t
  /-- No call but one that may be interrupted was told that it was. -/
  replies : ∀ i, ∀ r ∈ ((w.run initializer events).reference i).log,
    r.answer = .interrupted → ∃ leaves, r.call = .get ⟨true, leaves⟩
  /-- A call that begins now is told so only if it waits and its thread is interrupted. -/
  warranted : ∀ q : Query ι T E, q.initializer = initializer →
    q.world = w.run initializer events → ∀ more last, q.Spans more last .interrupted →
      ∃ k watched seen noticed, q.Warranted k watched seen noticed more

/-- Whatever the calls of the threads and whatever the order of their turns, at any number of
references: threads are interrupted as they were told, and only calls that wait learn of it. -/
theorem run_interruptions (initializer : (i : ι) → Nat → Routine (T i) (E i))
    (source : (i : ι) → Option (T i)) (threads : (i : ι) → Table (Thread (T i) (E i)))
    (hthreads : ∀ i t, ((threads i).get t).frames = [] ∧
      ∀ c ∈ ((threads i).get t).calls, c.Offered)
    (hduring : ∀ i run, ∀ c ∈ (initializer i run).during, c.Offered ∧ ¬c.Awaits)
    (events : List (ι × Turn)) :
    Interruptions initializer (World.start source threads) events := by
  have hstart : ∀ i, Orderly ((World.start source threads).lineage i) := fun i =>
    orderly_start (hthreads i)
  have hrun : ∀ i, Orderly (((World.start source threads).run initializer events).lineage i) :=
    orderly_run hduring hstart events
  refine ⟨interrupted_iff (fun _ => rfl) events, fun _ _ => flag_kept, fun i => (hrun i).log, ?_⟩
  rintro q rfl hworld more last hspans
  exact hspans.warranted hduring (hworld ▸ hrun)

/-- One thread runs the initializer of a reference and a second one waits for it. A third one
interrupts the second while it is busy with another reference. The second thread is told so; then
it runs the initializer of the other reference itself, its status raised, and lowers it at last. -/
theorem run_interruptions_two_references :
    let initializer : Bool → Nat → Routine Nat String := fun _ run =>
      ⟨[.isInterrupted], some "gate", .value run⟩
    let threads : Bool → Table (Thread Nat String) := fun i => bif i
      then ⟨.idle, [.idle, ⟨[], [.get ⟨true, true⟩], {}⟩, ⟨[], [.interrupt 1], {}⟩]⟩
      else ⟨.idle, [⟨[], [.get ⟨false, false⟩], {}⟩,
        ⟨[], [.get ⟨true, false⟩, .interrupted], {}⟩]⟩
    let turns := fun n i t => List.replicate n (i, Turn.thread t)
    let before := turns 9 false 0 ++ turns 1 false 1
    let more := turns 8 false 1 ++ turns 3 true 2 ++ turns 4 false 1
    let events := before ++ more ++ turns 1 false 1 ++ [(true, .opens "gate")] ++
      turns 17 true 1 ++ turns 2 false 1
    let w : World Bool (fun _ => Nat) (fun _ => String) := .start (fun _ => none) threads
    let q : Query Bool (fun _ => Nat) (fun _ => String) :=
      ⟨w.run initializer before, initializer, false, 1, ⟨true, false⟩, []⟩
    q.Spans more (false, .thread 1) .interrupted ∧
      (∃ k watched seen noticed, q.Warranted k watched seen noticed more) ∧
      ((w.run initializer (before ++ more)).flag 1 = true) ∧
      ((w.run initializer events).reference false).log.map Reply.answer =
        ([.flag false, .interrupted, .flag true] : List (Answer Nat String)) ∧
      ((w.run initializer events).reference true).log.map Reply.answer =
        ([.done, .flag true, .outcome (.ok ⟨0, 1⟩)] : List (Answer Nat String)) ∧
      (w.run initializer events).flag 1 = false ∧ Interruptions initializer w events := by
  intro initializer threads turns before more events w q
  have hthreads : ∀ i t, ((threads i).get t).frames = [] ∧
      ∀ c ∈ ((threads i).get t).calls, c.Offered := by
    intro i t
    rcases i with _ | _ <;> rcases t with _ | _ | _ | t
    all_goals exact ⟨rfl, by simp [threads, Table.get, Thread.idle, Call.Offered]⟩
  have hduring : ∀ i run, ∀ c ∈ (initializer i run).during, c.Offered ∧ ¬c.Awaits := by
    intro i run c hc
    rw [List.mem_singleton.1 hc]
    exact ⟨trivial, id⟩
  have hspans : q.Spans more (false, .thread 1) .interrupted :=
    .of_inits (by decide +kernel) (by decide +kernel) (by decide +kernel) (.thread 1)
      (by decide +kernel)
  refine ⟨hspans, ?_, by decide +kernel, by decide +kernel, by decide +kernel, by decide +kernel,
    run_interruptions initializer _ threads hthreads hduring events⟩
  exact (run_interruptions initializer _ threads hthreads hduring before).warranted q rfl rfl more
    _ hspans

/-! ## Calls that are told so at the wrong time -/

/-- Whether no call on a reference computes an outcome. -/
def computesNothing {T E : Type} (s : System T E) : Bool :=
  (s.threads.blank :: s.threads.rows).all fun thread =>
    thread.frames.all fun f => f.stage.claimed.isNone || f.stage.isTentative

theorem not_computes {T E : Type} {s : System T E} (h : computesNothing s = true) {u k : Nat}
    {f : Frame T E} (hmem : f ∈ s.lineage.frames u) : ¬f.stage.Computes k := by
  intro hcomputes
  have hthread := List.all_eq_true.1 h _ (s.threads.get_mem u)
  have hframe := List.all_eq_true.1 hthread f hmem
  rw [hcomputes.claimed, hcomputes.not_tentative] at hframe
  cases hframe

theorem not_coincides {q : Query ι T E} {events : List (ι × Turn)}
    (h : ∀ before ∈ events.inits, (q.after before).flag q.thread = true →
      computesNothing ((q.after before).reference q.site) = true) :
    ∀ before, before <+: events → ¬q.Coincides before := by
  rintro before hbefore ⟨hflag, k, -, u, -, f, hmem, hcomputes⟩
  exact not_computes (h before ((List.mem_inits ..).2 hbefore) hflag) hmem hcomputes

/-- The call of the second of three threads at a reference that nobody used before some events. The
first two threads ask for the value, and the second one may be interrupted. -/
def amongThree (leaves : Bool) (calls : List Call) (before : List (Unit × Turn)) :
    Query Unit (fun _ => Nat) (fun _ => String) :=
  let initializer : Unit → Nat → Routine Nat String := fun _ run => ⟨[], none, .value run⟩
  let threads : Table (Thread Nat String) := ⟨.idle, [⟨[], [.get ⟨false, leaves⟩], {}⟩,
    ⟨[], [.get ⟨true, leaves⟩], {}⟩, ⟨[], calls, {}⟩]⟩
  ⟨(World.start (fun _ => none) fun _ => threads).run initializer before, initializer, (), 1,
    ⟨true, leaves⟩, []⟩

/-- A call is told that its thread was interrupted, and at no moment of the call is its thread
interrupted while it waits for an outcome that another thread computes. First, the thread was
interrupted before the call, and it waits for a thread that has claimed the holder; then a third
thread cancels the reference and the claim is given back, so that the initializer is never run.
Second, the thread sees that the holder is being resolved; then it is completed, and only then a
third thread interrupts the one that waits. -/
theorem interrupted_without_coincidence :
    let turns := fun n t => List.replicate n ((), Turn.thread t)
    let q := amongThree true [.interrupt 1, .cancel] (turns 7 0 ++ turns 3 2 ++ turns 1 1)
    let s := (q.after (turns 10 1 ++ turns 9 2 ++ turns 12 0)).reference ()
    let q' := amongThree false [.interrupt 1] (turns 7 0 ++ turns 1 1)
    let events := turns 6 1 ++ turns 6 0 ++ turns 2 2 ++ turns 2 1
    (q.Spans (turns 9 1) ((), .thread 1) .interrupted ∧ (q.after []).flag 1 = true ∧
        (∀ before, before <+: turns 9 1 → ¬q.Coincides before) ∧ s.runs = [] ∧
        s.answersTo (.thread 0) = [.outcome (.error .cancelled)]) ∧
      (q'.Spans events ((), .thread 1) .interrupted ∧
        ∀ before, before <+: events → ¬q'.Coincides before) := by
  intro turns q s q' events
  refine ⟨⟨.of_inits (by decide +kernel) (by decide +kernel) (by decide +kernel) (.thread 1)
    (by decide +kernel), by decide +kernel, not_coincides (by decide +kernel), by decide +kernel,
    by decide +kernel⟩,
    .of_inits (by decide +kernel) (by decide +kernel) (by decide +kernel) (.thread 1)
    (by decide +kernel), not_coincides (by decide +kernel)⟩

end World

end SharedCells.Lazy
