import SharedCells.Lazy.Settle
import SharedCells.Proofs.Lazy.Generations.Late
import SharedCells.Proofs.Lazy.Generations.Succession
import SharedCells.Proofs.Lazy.Waiting.Attended

/-!
# Whoever waits is served

`run_served` is about threads that get the value of a resettable reference, reset it and cancel it,
when the initializers make no calls that wait. A thread that is parked, and to which no wake-up is
on its way, waits for a holder whose initializer another thread runs; it is registered there, and a
call for the value does not wait for a holder that was replaced. A thread whose wait has no reason
any more stops waiting within six of its turns. Nobody is registered where nobody waits.

The schedules are `System.Whole`: between the claim of a holder and the moment when the claim is
kept or handed back no other thread moves, since this is one attempt to resolve the holder.
-/

namespace SharedCells.Lazy

variable {T E : Type} {initializer : Nat → Routine T E} {g : Ledger} {s : System T E}
  {t k : Nat} {call : Call} {stage : Stage T E} {rest : List (Frame T E)}

/-! ## Schedules -/

namespace System

/-- A turn does not come between the claim of another thread and the moment when the claim is kept
or handed back. -/
def Admits (s : System T E) : Turn → Prop
  | .opens _ => True
  | turn => ∀ u, s.lineage.isTentative u = true → u = turn.mover

/-- No thread is disturbed in an attempt to resolve a holder. -/
def Whole (initializer : Nat → Routine T E) (s : System T E) : List Turn → Prop
  | [] => True
  | turn :: more => s.Admits turn ∧ (s.step initializer turn).Whole initializer more

theorem forall_tentative_iff (s : System T E) (t : Nat) :
    (∀ u, s.lineage.isTentative u = true → u = t) ↔
      (∀ f ∈ s.threads.blank.frames.head?, f.stage.isTentative = false) ∧
        ∀ u < s.threads.rows.length, s.lineage.isTentative u = true → u = t := by
  have hblank : ∀ u, s.threads.rows.length ≤ u →
      s.lineage.frames u = s.threads.blank.frames := fun u hu => by
    exact congrArg Thread.frames (Table.get_of_length_le hu)
  -- All threads but finitely many are alike.
  constructor
  · refine fun h => ⟨fun f hf => Bool.eq_false_iff.2 fun htentative => ?_, fun u _ => h u⟩
    -- A thread beyond the table that is not the one that moves.
    have hframes := hblank (max s.threads.rows.length (t + 1)) (Nat.le_max_left ..)
    obtain ⟨rest, hcons⟩ := List.head?_eq_some_iff.1 hf
    have heq := h _ ((Lineage.isTentative_eq (hframes.trans hcons)).trans htentative)
    have hbeyond : t + 1 ≤ max s.threads.rows.length (t + 1) := Nat.le_max_right ..
    omega
  · rintro ⟨hnone, hrows⟩ u htentative
    rcases Nat.lt_or_ge u s.threads.rows.length with hu | hu
    · exact hrows u hu htentative
    · have hframes := hblank u hu
      cases hcons : s.threads.blank.frames with
      | nil =>
        rw [Lineage.isTentative, hframes, hcons] at htentative
        cases htentative
      | cons f rest =>
        rw [Lineage.isTentative_eq (hframes.trans hcons)] at htentative
        cases (hnone f (by rw [hcons]; rfl)).symm.trans htentative

instance (s : System T E) : (turn : Turn) → Decidable (s.Admits turn)
  | .opens _ => isTrue trivial
  | .thread t => decidable_of_iff _ (s.forall_tentative_iff t).symm
  | .claimFails t => decidable_of_iff _ (s.forall_tentative_iff t).symm
  | .wakes t => decidable_of_iff _ (s.forall_tentative_iff t).symm

instance decidableWhole (initializer : Nat → Routine T E) :
    (schedule : List Turn) → (s : System T E) → Decidable (s.Whole initializer schedule)
  | [], _ => isTrue trivial
  | turn :: more, s =>
    have := decidableWhole initializer more (s.step initializer turn)
    inferInstanceAs (Decidable (s.Admits turn ∧ (s.step initializer turn).Whole initializer more))

end System

/-! ## Runs -/

/-- A reference that has been used by threads that were not disturbed in their attempts. -/
structure Watched (initializer : Nat → Routine T E) (s : System T E) : Prop where
  reached : Reached initializer s
  manned : Manned s.lineage
  attended : s.roster.Attended

section Runs

variable (hduring : ∀ run, ∀ c ∈ (initializer run).during, c.Renews ∧ ¬c.Awaits)

include hduring

theorem Watched.step (h : Watched initializer s) {turn : Turn} (hadmits : s.Admits turn) :
    Watched initializer (s.step initializer turn) := by
  obtain ⟨g, hinv, hadvances⟩ := h.reached.advances turn
  refine ⟨h.reached.step (fun run c hc => (hduring run c hc).1) turn,
    h.manned.advances (fun run c hc => (hduring run c hc).2) hadvances, ?_⟩
  have hstirs := step_stirs initializer turn fun f rest hf => hinv.nested hf
  cases turn with
  | opens gate => exact h.attended
  | thread t => exact h.attended.stirs hinv h.manned hadvances hstirs hadmits
  | claimFails t => exact h.attended.stirs hinv h.manned hadvances hstirs hadmits
  | wakes t => exact h.attended.stirs hinv h.manned hadvances hstirs hadmits

theorem Watched.run (h : Watched initializer s) {schedule : List Turn}
    (hwhole : s.Whole initializer schedule) : Watched initializer (s.run initializer schedule) := by
  induction schedule generalizing s with
  | nil => exact h
  | cons turn schedule ih => exact ih (h.step hduring hwhole.1) hwhole.2

end Runs

theorem watched_start {threads : Table (Thread T E)}
    (hthreads : ∀ t, (threads.get t).frames = [] ∧ ∀ c ∈ (threads.get t).calls, c.Renews) :
    Watched initializer (System.start none threads) := by
  have hframes : ∀ t, (System.start none threads).lineage.frames t = [] := fun t => (hthreads t).1
  have hfresh : ∀ h, (System.start none threads).holder h = .fresh := fun h => by
    show ((Table.of (Holder.fresh : Holder T E)).set 0 .fresh).get h = .fresh
    rw [Table.get_set]
    split <;> rfl
  have hwaiters : ∀ h, (System.start none threads).roster.waiters h = [] := fun h =>
    congrArg Holder.waiters (hfresh h)
  refine ⟨reached_start hthreads, ⟨fun k hresolving => ?_, fun u => ?_⟩,
    ⟨fun u call stage rest hf => ?_, fun h u hmem => ?_, fun h => ?_⟩⟩
  · have hphase : ((System.start none threads).lineage.holders k).phase = .unresolved :=
      congrArg Holder.phase (hfresh k)
    cases hphase.symm.trans hresolving
  · rw [hframes u]
    trivial
  · cases (hframes u).symm.trans hf
  · rw [hwaiters h] at hmem
    cases hmem
  · rw [hwaiters h]
    exact List.nodup_nil

/-! ## Parked threads -/

/-- A call is in the middle of taking an initializer, of publishing an outcome or of waking
waiters. -/
def Stage.Midway : Stage T E → Prop
  | arming _ | publishing _ _ | completing _ _ | draining _ _ => True
  | waking threads _ => threads ≠ []
  | _ => False

namespace System

/-- No thread is in the middle of a step that others see as one. -/
def Between (s : System T E) : Prop :=
  ∀ t f rest, (s.thread t).frames = f :: rest → ¬f.stage.Midway

/-- A thread is inside a wait for a holder. -/
def WaitsFor (s : System T E) (t k : Nat) : Prop :=
  ∃ call stage rest, (s.thread t).frames = ⟨call, stage⟩ :: rest ∧ stage.Waits k

end System

theorem System.Between.permit (h : s.Between) (hnotified : s.roster.Notified k t) :
    (s.thread t).status.permit = true := by
  cases hnotified with
  | permit hpermit => exact hpermit
  | waking hf hmem => exact absurd (List.ne_nil_of_mem hmem) (h _ _ _ hf)
  | draining hf hmem => exact absurd trivial (h _ _ _ hf)

namespace Watched

theorem unreleased (h : Watched initializer s)
    (hf : (s.thread t).frames = ⟨call, .parked k⟩ :: rest) (hquiet : ¬s.roster.Notified k t) :
    ¬s.lineage.Releases k call := fun hreleases =>
  hquiet ((h.attended.minds t call _ rest hf).2 hreleases)

theorem registered (h : Watched initializer s)
    (hf : (s.thread t).frames = ⟨call, .parked k⟩ :: rest) (hquiet : ¬s.roster.Notified k t) :
    t ∈ (s.holder k).waiters :=
  (h.attended.minds t call _ rest hf).1.listed.resolve_right (h.unreleased hf hquiet)

theorem unretired (h : Watched initializer s) {policy : Policy}
    (hf : (s.thread t).frames = ⟨.get policy, .parked k⟩ :: rest)
    (hquiet : ¬s.roster.Notified k t) : (s.holder k).retired = false := by
  obtain ⟨g, hinv, -⟩ := h.reached
  have hleaves : policy.leaveOnRetire = true := (hinv.head hf).renews
  exact Bool.eq_false_iff.2 fun hretired => h.unreleased hf hquiet (Or.inr ⟨hleaves, hretired⟩)

/-- Another thread computes the outcome that a parked thread waits for. -/
theorem computed (h : Watched initializer s)
    (hf : (s.thread t).frames = ⟨call, .parked k⟩ :: rest) (hquiet : ¬s.roster.Notified k t) :
    ∃ u, u ≠ t ∧ ∃ f ∈ (s.thread u).frames, f.stage.Computes k := by
  have hcommitted := (h.attended.minds t call _ rest hf).1.committed
  have hrunning := hcommitted.resolve_left fun hcomplete =>
    h.unreleased hf hquiet (Or.inl hcomplete)
  obtain ⟨u, f, hmem, hcomputes⟩ := hrunning
  refine ⟨u, ?_, f, hmem, hcomputes⟩
  -- A thread that waits makes no other call.
  rintro rfl
  obtain ⟨g, hinv, -⟩ := h.reached
  have hframes : s.lineage.frames u = ⟨call, .parked k⟩ :: rest := hf
  have hmem' : f ∈ s.lineage.frames u := hmem
  rw [hframes] at hmem'
  rcases List.mem_cons.1 hmem' with rfl | hrest
  · exact hcomputes
  · exact (h.manned.head hframes).outermost (List.length_pos_of_mem hrest)
      (hinv.waits hframes rfl).1

/-- Whoever computes an outcome runs the initializer, unless it is in the middle of a step. -/
theorem runs (h : Watched initializer s) (hbetween : s.Between) {u : Nat} {f : Frame T E}
    (hmem : f ∈ (s.thread u).frames) (hcomputes : f.stage.Computes k) :
    ∃ run calls, f.stage = .running k .publish run calls := by
  obtain ⟨g, hinv, -⟩ := h.reached
  obtain ⟨d, hsits⟩ := (hinv.seated.frames u).exists_of_mem (f := f) hmem
  have hmidway : ¬f.stage.Midway := by
    rcases hinv.innermost_or_runs (f := f) hmem with
      ⟨rest, hframes⟩ | ⟨k', purpose, run, calls, hrunning⟩
    · exact hbetween u f rest hframes
    · rw [hrunning]
      exact id
  have hallowed := hsits.allowed
  obtain ⟨call, stage⟩ := f
  cases stage with
  | running k' purpose run calls =>
    obtain rfl : k' = k := hcomputes
    obtain ⟨-, -, -, -, rfl, -⟩ := hallowed
    exact ⟨run, calls, rfl⟩
  | arming k' | publishing k' o | completing k' o => exact absurd trivial hmidway
  | _ => exact hcomputes.elim

theorem emptied (h : Watched initializer s) (hnobody : ∀ t, ¬s.WaitsFor t k) :
    (s.holder k).waiters = [] := by
  refine List.eq_nil_iff_forall_not_mem.2 fun t hmem => hnobody t ?_
  exact h.attended.listed k t hmem

end Watched

/-! ## Threads whose wait has no reason any more -/

/-- How many turns of its own a thread takes at most until it stops waiting for a holder that has
released its call. -/
def Lineage.left (l : Lineage T E) (call : Call) : Stage T E → Nat
  | .leaving _ _ => 1
  | .watching h => if (l.holders h).phase = .complete then 2 else 3
  | .watchingRetired h =>
    if call.policy.leaveOnRetire = true ∧ (l.holders h).retired = true then 2 else 6
  | .parked _ => 4
  | .watchingStatus _ => 5
  | _ => 0

/-- The thread will pass a park, if it comes to one before it looks at the phase again. -/
def Roster.Passes (R : Roster T E) (t : Nat) (call : Call) : Stage T E → Prop
  | .watchingRetired h =>
    (call.policy.leaveOnRetire = true ∧ (R.lineage.holders h).retired = true) ∨ R.permit t = true
  | .watchingStatus _ | .parked _ => R.permit t = true
  | _ => True

/-- A thread waits for a holder that has released its call. -/
structure Freed (s : System T E) (t k : Nat) (call : Call) (stage : Stage T E)
    (rest : List (Frame T E)) : Prop where
  head : (s.thread t).frames = ⟨call, stage⟩ :: rest
  waits : stage.Waits k
  releases : s.lineage.Releases k call
  passes : s.roster.Passes t call stage

theorem Freed.left_pos (h : Freed s t k call stage rest) : 0 < s.lineage.left call stage := by
  have hwaits := h.waits
  cases stage with
  | watching h' | watchingRetired h' =>
    rw [Lineage.left]
    split <;> exact Nat.succ_pos _
  | watchingStatus h' | parked h' | leaving h' wake => exact Nat.succ_pos _
  | _ => exact hwaits.elim

theorem left_le {l l' : Lineage T E}
    (hcomplete : (l.holders k).phase = .complete → (l'.holders k).phase = .complete)
    (hretired : (l.holders k).retired = true → (l'.holders k).retired = true)
    (hwaits : stage.Waits k) : l'.left call stage ≤ l.left call stage := by
  cases stage with
  | watching h' =>
    obtain rfl : h' = k := hwaits
    rw [Lineage.left, Lineage.left]
    split
    · split <;> omega
    · rename_i hno
      exact Nat.le_of_eq (if_neg fun hyes => hno (hcomplete hyes)).symm
  | watchingRetired h' =>
    obtain rfl : h' = k := hwaits
    rw [Lineage.left, Lineage.left]
    split
    · split <;> omega
    · rename_i hno
      exact Nat.le_of_eq (if_neg fun hyes => hno (hyes.imp_right hretired)).symm
  | watchingStatus h' | parked h' | leaving h' wake => exact Nat.le_refl _
  | _ => exact hwaits.elim

theorem goTo_freed {s' : System T E} (hs : s'.lineage = s.lineage)
    (hf : (s.thread t).frames = ⟨call, stage⟩ :: rest) {stage' : Stage T E}
    (hwaits : stage'.Waits k) (hreleases : s.lineage.Releases k call)
    (hpasses : s'.roster.Passes t call stage')
    (hleft : s.lineage.left call stage' < s.lineage.left call stage) :
    Freed (s'.goTo t stage') t k call stage' rest ∧
      (s'.goTo t stage').lineage.left call stage' < s.lineage.left call stage := by
  have hf' : (s'.thread t).frames = ⟨call, stage⟩ :: rest :=
    (congrFun (congrArg Lineage.frames hs) t).trans hf
  have hlineage : (s'.goTo t stage').lineage = s.lineage.put t (⟨call, stage'⟩ :: rest) := by
    rw [s'.lineage_goTo hf', hs]
  have hholders : (s'.goTo t stage').lineage.holders = s.lineage.holders :=
    (congrArg Lineage.holders hlineage).trans rfl
  have hholders' : s'.lineage.holders = s.lineage.holders := congrArg Lineage.holders hs
  have hpermit := s'.permit_goTo (t := t) stage'
  refine ⟨⟨s'.frames_goTo hf' stage', hwaits, ?_, ?_⟩, ?_⟩
  · rw [Lineage.Releases, hholders]
    exact hreleases
  · cases stage' with
    | watchingRetired h' =>
      show (call.policy.leaveOnRetire = true ∧
        ((s'.goTo t (.watchingRetired h')).lineage.holders h').retired = true) ∨ _
      rw [hholders, hpermit, ← hholders']
      exact hpasses
    | watchingStatus h' | parked h' =>
      exact (congrFun hpermit t).trans hpasses
    | _ => trivial
  · refine Nat.lt_of_le_of_lt (Nat.le_of_eq ?_) hleft
    cases stage' with
    | watching h' | watchingRetired h' => rw [Lineage.left, Lineage.left, hholders]
    | _ => rfl

variable (initializer) in
/-- A turn of its own brings such a thread nearer to the end of its wait. -/
theorem Freed.advance (h : Freed s t k call stage rest) (hnested : ∀ f ∈ rest, f.Runs) :
    ¬(s.advance initializer t call stage).WaitsFor t k ∨
      ∃ stage', Freed (s.advance initializer t call stage) t k call stage' rest ∧
        (s.advance initializer t call stage).lineage.left call stage' <
          s.lineage.left call stage := by
  obtain ⟨hf, hwaits, hreleases, hpasses⟩ := h
  cases stage with
  | watching h' =>
    obtain rfl : h' = k := hwaits
    refine Or.inr ?_
    simp only [System.advance]
    split
    · rename_i hresolving
      have hno : (s.lineage.holders h').phase ≠ .complete := fun hcomplete => by
        cases hresolving.symm.trans hcomplete
      have hretired := hreleases.resolve_left hno
      refine ⟨_, goTo_freed rfl hf rfl hreleases (Or.inl hretired) ?_⟩
      rw [Lineage.left, Lineage.left, if_pos hretired, if_neg hno]
      exact Nat.lt_succ_self 2
    · refine ⟨_, goTo_freed rfl hf rfl hreleases trivial ?_⟩
      rw [Lineage.left, Lineage.left]
      split <;> omega
  | watchingRetired h' =>
    obtain rfl : h' = k := hwaits
    refine Or.inr ?_
    simp only [System.advance]
    split
    · refine ⟨_, goTo_freed rfl hf rfl hreleases trivial ?_⟩
      rw [Lineage.left, Lineage.left]
      split <;> omega
    · -- It may not look at the phase again before it is parked, so it needs the permit.
      rename_i hstays
      have hno : ¬(call.policy.leaveOnRetire = true ∧ (s.lineage.holders h').retired = true) :=
        fun hyes => hstays (Bool.and_eq_true_iff.2 hyes)
      refine ⟨_, goTo_freed rfl hf rfl hreleases (hpasses.resolve_left hno) ?_⟩
      rw [Lineage.left, Lineage.left, if_neg hno]
      exact Nat.lt_succ_self 5
  | watchingStatus h' =>
    obtain rfl : h' = k := hwaits
    refine Or.inr ?_
    simp only [System.advance]
    split
    · exact ⟨_, goTo_freed rfl hf rfl hreleases trivial (by simp [Lineage.left])⟩
    · exact ⟨_, goTo_freed rfl hf rfl hreleases hpasses (by simp [Lineage.left])⟩
  | parked h' =>
    obtain rfl : h' = k := hwaits
    have hpermit : (s.thread t).status.permit = true := hpasses
    refine Or.inr ?_
    simp only [System.advance, Status.park?, hpermit, if_true]
    refine ⟨_, goTo_freed (s.lineage_updateStatus t _) hf rfl hreleases trivial ?_⟩
    rw [Lineage.left, Lineage.left]
    split <;> omega
  | leaving h' wake =>
    refine Or.inl ?_
    rintro ⟨call', stage', rest', hf', hwaits'⟩
    exact Stage.Idle.not_waits ((roster_leaving initializer hf hnested).1 _ _ hf') k hwaits'
  | _ => exact hwaits.elim

theorem Freed.keep {s' : System T E} (h : Freed s t k call stage rest)
    (hf' : (s'.thread t).frames = ⟨call, stage⟩ :: rest)
    (hcomplete : (s.lineage.holders k).phase = .complete →
      (s'.lineage.holders k).phase = .complete)
    (hretired : (s.lineage.holders k).retired = true → (s'.lineage.holders k).retired = true)
    (hpermit : s.roster.permit t = true → s'.roster.permit t = true) :
    Freed s' t k call stage rest ∧ s'.lineage.left call stage ≤ s.lineage.left call stage := by
  obtain ⟨-, hwaits, hreleases, hpasses⟩ := h
  refine ⟨⟨hf', hwaits, hreleases.imp hcomplete (And.imp_right hretired), ?_⟩,
    left_le hcomplete hretired hwaits⟩
  cases stage with
  | watchingRetired h' =>
    obtain rfl : h' = k := hwaits
    exact Or.imp (And.imp_right hretired) hpermit hpasses
  | watchingStatus h' | parked h' => exact hpermit hpasses
  | _ => trivial

theorem Freed.waits_on (h : Freed s t k call stage rest) (hs : Reached initializer s) {turn : Turn}
    (hturn : turn.isStep t = false) :
    ∃ stage', Freed (s.step initializer turn) t k call stage' rest ∧
      (s.step initializer turn).lineage.left call stage' ≤ s.lineage.left call stage := by
  have hsame : s.step initializer turn = s →
      ∃ stage', Freed (s.step initializer turn) t k call stage' rest ∧
        (s.step initializer turn).lineage.left call stage' ≤ s.lineage.left call stage :=
    fun hstep => ⟨stage, by rw [hstep]; exact ⟨h, Nat.le_refl _⟩⟩
  obtain ⟨g, hinv, hadvances⟩ := hs.advances turn
  by_cases hmover : t = turn.mover
  · have hf := h.head
    have hwaits := h.waits
    cases turn with
    | thread u => exact absurd (decide_eq_true hmover.symm) (Bool.eq_false_iff.1 hturn)
    | claimFails u =>
      obtain rfl : t = u := hmover
      refine hsame ?_
      rw [System.step, hf]
      cases stage with
      | claiming h' => exact hwaits.elim
      | _ => rfl
    | wakes u =>
      obtain rfl : t = u := hmover
      cases stage with
      | parked h' =>
        rw [System.step, hf]
        have hleft : s.lineage.left call (.watching h') < s.lineage.left call (.parked h') := by
          rw [Lineage.left, Lineage.left]
          split <;> omega
        have hwatches : (Stage.watching h' : Stage T E).Waits k := hwaits
        obtain ⟨hfreed, hlt⟩ := goTo_freed rfl hf hwatches h.releases trivial hleft
        exact ⟨_, hfreed, Nat.le_of_lt hlt⟩
      | _ => exact hsame (by rw [System.step, hf])
    | opens gate => exact ⟨stage, h.keep hf id id id⟩
  · have hstirs := step_stirs initializer turn fun f rest hf => hinv.nested hf
    exact ⟨stage, h.keep ((hadvances.frames_of_ne hmover).trans h.head)
      ((hadvances.alters k).complete hinv) ((hinv.later hadvances).retired k)
      (hstirs.permit_of_ne hmover)⟩

/-- A thread whose wait has no reason any more stops waiting once it has taken the turns that it
has left. -/
theorem Freed.leaves (h : Freed s t k call stage rest) (hs : Reached initializer s)
    (hduring : ∀ run, ∀ c ∈ (initializer run).during, c.Renews) (more : List Turn)
    (hmore : s.lineage.left call stage ≤ more.countP (Turn.isStep t)) :
    ∃ before, before <+: more ∧ ¬(s.run initializer before).WaitsFor t k := by
  induction more generalizing s stage with
  | nil => exact absurd hmore (Nat.not_le_of_gt h.left_pos)
  | cons turn more ih =>
    rw [List.countP_cons] at hmore
    have hnext : ∀ stage', Freed (s.step initializer turn) t k call stage' rest →
        (s.step initializer turn).lineage.left call stage' ≤ more.countP (Turn.isStep t) →
          ∃ before, before <+: turn :: more ∧ ¬(s.run initializer before).WaitsFor t k := by
      intro stage' hfreed hleft
      obtain ⟨before, hbefore, hgone⟩ := ih hfreed (hs.step hduring turn) hleft
      exact ⟨turn :: before, List.cons_prefix_cons.2 ⟨rfl, hbefore⟩, hgone⟩
    cases hturn : turn.isStep t with
    | false =>
      obtain ⟨stage', hfreed, hleft⟩ := h.waits_on hs hturn
      refine hnext stage' hfreed (Nat.le_trans hleft ?_)
      simpa [hturn] using hmore
    | true =>
      obtain rfl : turn = .thread t := by
        cases turn with
        | thread u => rw [of_decide_eq_true hturn]
        | _ => cases hturn
      obtain ⟨g, hinv, -⟩ := hs
      have hstep : s.step initializer (.thread t) = s.advance initializer t call stage := by
        rw [System.step, System.stepThread, h.head]
      rcases h.advance initializer (hinv.nested h.head) with
        hgone | ⟨stage', hfreed, hleft⟩
      · rw [← hstep] at hgone
        exact ⟨[.thread t], List.cons_prefix_cons.2 ⟨rfl, List.nil_prefix⟩, hgone⟩
      · rw [← hstep] at hfreed hleft
        refine hnext stage' hfreed ?_
        rw [hturn, if_pos rfl] at hmore
        omega

/-- Between steps, a thread that waits for a holder which has released its call is freed. -/
theorem Watched.freed (h : Watched initializer s) (hbetween : s.Between)
    (hf : (s.thread t).frames = ⟨call, stage⟩ :: rest) (hwaits : stage.Waits k)
    (hreleases : s.lineage.Releases k call) : Freed s t k call stage rest := by
  refine ⟨hf, hwaits, hreleases, ?_⟩
  have hminds := h.attended.minds t call stage rest hf
  cases stage with
  | watchingRetired h' =>
    obtain rfl : h' = k := hwaits
    rcases hreleases with hcomplete | hretired
    · exact (hminds.2 hcomplete).symm.imp_right hbetween.permit
    · exact Or.inl hretired
  | watchingStatus h' | parked h' =>
    obtain rfl : h' = k := hwaits
    exact hbetween.permit (hminds.2 hreleases)
  | _ => trivial

theorem left_le_six (l : Lineage T E) (call : Call) (stage : Stage T E) :
    l.left call stage ≤ 6 := by
  cases stage with
  | watching h | watchingRetired h =>
    rw [Lineage.left]
    split <;> omega
  | _ => simp [Lineage.left]

/-! ## All schedules -/

/-- What threads that wait may rely on. -/
structure Served (initializer : Nat → Routine T E) (s : System T E) : Prop where
  /-- A thread that is parked, and to which no wake-up is on its way, waits for an outcome that
  another thread computes. -/
  parked : ∀ t call k rest, (s.thread t).frames = ⟨call, .parked k⟩ :: rest →
    ¬s.roster.Notified k t →
      (∃ u, u ≠ t ∧ ∃ f ∈ (s.thread u).frames, f.stage.Computes k) ∧
        t ∈ (s.holder k).waiters ∧
        ∀ policy, call = .get policy → (s.holder k).retired = false
  /-- Between steps that thread runs the initializer, and a wake-up that is on its way has given a
  permit. -/
  running : s.Between → ∀ t call k rest, (s.thread t).frames = ⟨call, .parked k⟩ :: rest →
    (s.thread t).status.permit = false →
      (∃ u, u ≠ t ∧ ∃ f ∈ (s.thread u).frames, ∃ run calls,
        f.stage = .running k .publish run calls) ∧
        t ∈ (s.holder k).waiters ∧
        ∀ policy, call = .get policy → (s.holder k).retired = false
  /-- A thread stops waiting for an outcome that is there, and a call for the value stops waiting
  for a holder that was replaced. -/
  released : s.Between → ∀ t call stage k rest, (s.thread t).frames = ⟨call, stage⟩ :: rest →
    stage.Waits k → ((s.holder k).phase = .complete ∨
      (∃ policy, call = .get policy) ∧ (s.holder k).retired = true) →
        ∀ more : List Turn, 6 ≤ more.countP (Turn.isStep t) →
          ∃ before, before <+: more ∧ ¬(s.run initializer before).WaitsFor t k
  /-- Nobody is registered where nobody waits. -/
  emptied : ∀ k, (∀ t, ¬s.WaitsFor t k) → (s.holder k).waiters = []

theorem Watched.served (h : Watched initializer s)
    (hduring : ∀ run, ∀ c ∈ (initializer run).during, c.Renews) : Served initializer s where
  parked t call k rest hf hquiet := by
    refine ⟨h.computed hf hquiet, h.registered hf hquiet, ?_⟩
    rintro policy rfl
    exact h.unretired hf hquiet
  running hbetween t call k rest hf hpermit := by
    have hquiet : ¬s.roster.Notified k t := fun hnotified => by
      cases hpermit.symm.trans (hbetween.permit hnotified)
    obtain ⟨u, hne, f, hmem, hcomputes⟩ := h.computed hf hquiet
    refine ⟨⟨u, hne, f, hmem, h.runs hbetween hmem hcomputes⟩, h.registered hf hquiet, ?_⟩
    rintro policy rfl
    exact h.unretired hf hquiet
  released hbetween t call stage k rest hf hwaits hreason more hmore := by
    have hreleases : s.lineage.Releases k call := by
      obtain ⟨g, hinv, -⟩ := h.reached
      rcases hreason with hcomplete | ⟨⟨policy, rfl⟩, hretired⟩
      · exact Or.inl hcomplete
      · have hleaves : policy.leaveOnRetire = true :=
          (hinv.head (show s.lineage.frames t = _ from hf)).renews
        exact Or.inr ⟨hleaves, hretired⟩
    exact (h.freed hbetween hf hwaits hreleases).leaves h.reached hduring more
      (Nat.le_trans (left_le_six ..) hmore)
  emptied k := h.emptied

/-- Whatever the calls of the threads and whatever the order of their turns, nobody waits in vain,
if the initializers make no calls that wait and no attempt to resolve a holder is disturbed. -/
theorem run_served (initializer : Nat → Routine T E) (threads : Table (Thread T E))
    (hthreads : ∀ t, (threads.get t).frames = [] ∧ ∀ c ∈ (threads.get t).calls, c.Renews)
    (hduring : ∀ run, ∀ c ∈ (initializer run).during, c.Renews ∧ ¬c.Awaits) (schedule : List Turn)
    (hwhole : (System.start none threads).Whole initializer schedule) :
    Served initializer ((System.start none threads).run initializer schedule) :=
  ((watched_start hthreads).run hduring hwhole).served fun run c hc => (hduring run c hc).1

/-- While one thread runs the initializer and another one waits for the value, a third one resets
the reference: it waits for what it has replaced, and the second thread waits no more. -/
theorem run_served_three_threads :
    let initializer : Nat → Routine Nat String := fun run => ⟨[.tryGet], some "gate", .value run⟩
    let threads : Table (Thread Nat String) :=
      ⟨.idle, [⟨[], [.get ⟨false, true⟩], {}⟩, ⟨[], [.get ⟨true, true⟩], {}⟩, ⟨[], [.reset], {}⟩]⟩
    let schedule := List.replicate 14 (.thread 0) ++ List.replicate 11 (.thread 1) ++
      List.replicate 18 (.thread 2) ++ List.replicate 15 (.thread 1)
    let s := (System.start none threads).run initializer schedule
    (s.holder 0).waiters = [2] ∧ s.rests initializer 2 = true ∧
      (s.holder 0).retired = true ∧ s.runs = [0, 1] ∧ Served initializer s := by
  refine ⟨by decide +kernel, by decide +kernel, by decide +kernel, by decide +kernel,
    run_served _ _ ?_ ?_ _ (by decide +kernel)⟩
  · intro t
    rcases t with _ | _ | _ | t
    · exact ⟨rfl, by simp [Table.get, Call.Renews]⟩
    · exact ⟨rfl, by simp [Table.get, Call.Renews]⟩
    · exact ⟨rfl, by simp [Table.get, Call.Renews]⟩
    · exact ⟨rfl, by simp [Table.get, Thread.idle]⟩
  · intro run c hc
    rw [List.mem_singleton.1 hc]
    exact ⟨trivial, id⟩

/-- Two threads claim the same holder one after the other, and both hand it back because a third
one has reset the reference meanwhile. If that one looks between the two it finds the holder being
resolved, parks without having registered once more, and nobody is left to wake it. -/
example :
    let initializer : Nat → Routine Nat String := fun run => ⟨[], none, .value run⟩
    let threads : Table (Thread Nat String) :=
      ⟨.idle, [⟨[], [.get ⟨false, true⟩], {}⟩, ⟨[], [.get ⟨false, true⟩], {}⟩,
        ⟨[], [.reset], {}⟩]⟩
    let turns := fun n t => List.replicate n (Turn.thread t)
    let schedule := turns 6 0 ++ turns 6 1 ++ turns 10 2 ++ turns 1 0 ++ turns 6 2 ++ turns 4 0 ++
      turns 1 1 ++ turns 4 2 ++ turns 15 0 ++ turns 15 1
    let s := (System.start none threads).run initializer schedule
    ¬(System.start none threads).Whole initializer schedule ∧
      (s.holder 0).waiters = [] ∧ (s.holder 0).phase = .unresolved ∧
      (List.range 3).map s.isIdle = [true, true, false] ∧
      (List.range 3).all (s.rests initializer) = true := by
  decide +kernel

end SharedCells.Lazy
