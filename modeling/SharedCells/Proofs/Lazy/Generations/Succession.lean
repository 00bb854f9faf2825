import SharedCells.Proofs.Lazy.Generations.Late
import SharedCells.Proofs.Lazy.Generations.Spared

/-!
# The generations of a resettable reference

A resettable reference is used by any number of threads, in any order of their turns. `Succession`
says what holds of its generations after every schedule (`run_succession`): each is computed at
most once and replaced at most once, a generation that is cancelled stays the last one, and the
count of the resets goes with the generations that were replaced.
-/

namespace SharedCells.Lazy

variable {T E : Type} {initializer : Nat → Routine T E} {g : Ledger} {l : Lineage T E}
  {s : System T E}

/-! ## The count -/

/-- While no reset has a replacement to count, the count is that of the generations that were
replaced, but for the last one if the reference is cancelled. -/
theorem Inv.counted_all (h : Inv initializer g l)
    (hdone : ∀ u, ∀ f ∈ l.frames u, f.call = .reset → ∀ k, f.stage.uncounted = some k →
      (l.holders k).phase = .cancelled) : l.generation + l.ends = l.current := by
  have hnone : g.uncounted = [] := by
    refine List.eq_nil_iff_forall_not_mem.2 fun k hk => ?_
    obtain ⟨u, f, hmem, hreset, hsome⟩ := h.counted.place k hk
    exact h.sound.live k (h.counted.bound k hk) (hdone u f hmem hreset k hsome)
  have htotal := h.counted.total
  rw [hnone] at htotal
  exact htotal

/-- A reference that is not in use has counted the resets that have ended. -/
theorem Inv.balanced (h : Inv initializer g l) (hidle : ∀ u, l.frames u = []) :
    l.generation = (l.log.filter Reply.resets).length := by
  have htotal : l.generation + l.ends = l.current :=
    h.counted_all fun u f hmem => by rw [hidle u] at hmem; cases hmem
  have hnone : ∀ u d k, g.target u d ≠ some k := fun u d k hsome => by
    have hlt := (h.traced.target u d k hsome).1
    rw [hidle u] at hlt
    cases hlt
  have hmem : ∀ k, k ∈ g.reported ↔ k < l.generation := by
    intro k
    have hends : l.ends = if (l.holders l.current).phase = .cancelled then 1 else 0 := by
      simp [Lineage.ends, Holder.isCancelled]
    constructor
    · intro hk
      obtain ⟨hlt, hlive, -⟩ := h.traced.reported k hk
      rw [hends] at htotal
      split at htotal
      · rename_i hcancelled
        have hne : k + 1 ≠ l.current := by
          intro hsame
          rw [hsame] at hlive
          exact hlive hcancelled
        omega
      · omega
    · intro hk
      rcases h.traced.all k (by omega) with hreported | hcancelled | ⟨u, d, hsome⟩
      · exact hreported
      · have hlast : ¬k + 1 < l.current := fun hlt => h.sound.live _ hlt hcancelled
        have hsame : k + 1 = l.current := by omega
        rw [hsame] at hcancelled
        rw [hends, if_pos hcancelled] at htotal
        omega
      · exact absurd hsome (hnone u d k)
  have hperm : g.reported.Perm (List.range l.generation) :=
    (List.perm_ext_iff_of_nodup h.traced.nodup List.nodup_range).2 fun k => by
      rw [hmem, List.mem_range]
  rw [h.told.resets.length_eq, hperm.length_eq, List.length_range]

/-! ## All schedules -/

/-- What holds of the generations of a resettable reference. -/
structure Succession (initializer : Nat → Routine T E) (s : System T E) : Prop where
  /-- The initializer runs at most once for a generation. -/
  once : s.runs.Nodup
  /-- The outcome of a generation is that of its run. -/
  computed : ∀ k o, (s.holder k).outcome = some o → Computed initializer s.runs k o
  /-- A generation is replaced by a call of `reset` or `cancel`, and the next one follows it. -/
  replaced : ∀ turn, (s.step initializer turn).current = s.current ∨ ∃ call rest,
    call.Replaces ∧ (s.thread turn.mover).frames = ⟨call, .swapping s.current false⟩ :: rest ∧
      (s.step initializer turn).current = s.current + 1 ∧
      ((s.step initializer turn).holder (s.current + 1)).bare = System.replacement call
  /-- A generation that was replaced is not replaced again. -/
  onward : ∀ turn, (s.step initializer turn).current ≠ s.current → ∀ more,
    s.current < ((s.step initializer turn).run initializer more).current
  /-- The resets that are not refused get the outcomes of different generations, all of which they
  have replaced. -/
  resets : ∃ generations : List Nat, generations.Nodup ∧ (∀ k ∈ generations, k < s.current) ∧
    List.Forall₂ (fun r k => ∃ o, (s.holder k).outcome = some o ∧ Reply.answer r = .outcome o)
      (s.log.filter Reply.resets) generations
  /-- At most one cancel tells that it has cancelled the reference, -/
  cancels : s.log.countP Reply.cancels ≤ 1
  /-- and then the reference is cancelled, -/
  won : ∀ r ∈ s.log, r.cancels = true → (s.holder s.current).phase = .cancelled
  /-- which it stays. -/
  settled : (s.holder s.current).phase = .cancelled → ∀ more,
    (s.run initializer more).current = s.current ∧
      ((s.run initializer more).holder s.current).phase = .cancelled
  /-- A call that begins then is refused, and changes nothing. -/
  late : (s.holder s.current).phase = .cancelled → ∀ t call rest turns last a,
    Episode initializer s t call rest turns last a → call.Refused →
      a = System.tooLate call ∧ ∀ before turn, before ++ [turn] <+: turns ++ [last] →
        turn.mover = t →
          (s.run initializer (before ++ [turn])).current = (s.run initializer before).current ∧
          (s.run initializer (before ++ [turn])).generation =
            (s.run initializer before).generation ∧
          (s.run initializer (before ++ [turn])).runs = (s.run initializer before).runs
  /-- It does not wait for anybody. -/
  prompt : (s.holder s.current).phase = .cancelled → ∀ t call rest,
    (s.thread t).frames = ⟨call, .start⟩ :: rest → call.Refused → ∀ more : List Turn,
      5 ≤ more.countP (Turn.isStep t) → ∃ turns last after, more = turns ++ last :: after ∧
        Episode initializer s t call rest turns last (System.tooLate call)
  /-- A get that begins now gets the outcome of a generation that is current in the meantime, if it
  is not interrupted. -/
  read : ∀ t policy rest turns last a,
    Episode initializer s t (.get policy) rest turns last a →
      (policy.interruptible = true ∧ a = .outcome (.error .interrupted)) ∨
        ∃ before, before <+: turns ∧
          ((s.run initializer turns).holder (s.run initializer before).current).Gives a
  /-- A generation that a cancel retires before anybody has claimed it is never computed. -/
  spared : ∀ t k rest, (s.thread t).frames = ⟨.cancel, .retiring k⟩ :: rest →
    (s.holder k).phase = .unresolved → ∀ more,
      k ∉ (s.run initializer (.thread t :: more)).runs
  /-- While no reset has a replacement to count, the count is that of the generations that were
  replaced, but for the last one if the reference is cancelled. -/
  counted : (∀ t, ∀ f ∈ (s.thread t).frames, f.call = .reset → ∀ k, f.stage.uncounted = some k →
    (s.holder k).phase = .cancelled) →
      s.generation + (if (s.holder s.current).isCancelled then 1 else 0) = s.current
  /-- A reference that is not in use has counted the resets that were not refused. -/
  balanced : (∀ t, (s.thread t).frames = []) →
    s.generation = (s.log.filter Reply.resets).length

theorem Reached.grows (hs : Reached initializer s)
    (hduring : ∀ run, ∀ c ∈ (initializer run).during, c.Renews) (more : List Turn) :
    s.current ≤ (s.run initializer more).current := by
  induction more generalizing s with
  | nil => exact Nat.le_refl _
  | cons turn more ih =>
    refine Nat.le_trans ?_ (ih (hs.step hduring turn))
    obtain ⟨g, hinv, hadvances⟩ := hs.advances turn
    rcases hadvances.current with hsame | ⟨call, rest, -, -, hnext, -⟩
    · exact Nat.le_of_eq hsame.symm
    · exact Nat.le_trans (Nat.le_of_lt hinv.sound.current_lt) (Nat.le_of_eq hnext.symm)

theorem Reached.settled (hs : Reached initializer s)
    (hduring : ∀ run, ∀ c ∈ (initializer run).during, c.Renews)
    (hcancelled : (s.holder s.current).phase = .cancelled) (more : List Turn) :
    (s.run initializer more).current = s.current ∧
      ((s.run initializer more).holder s.current).phase = .cancelled := by
  induction more generalizing s with
  | nil => exact ⟨rfl, hcancelled⟩
  | cons turn more ih =>
    obtain ⟨hsame, hstill⟩ := hs.stays hcancelled turn
    have hlater := ih (hs.step hduring turn) (by rw [hsame]; exact hstill)
    rw [hsame] at hlater
    exact hlater

theorem Reached.replaced (hs : Reached initializer s) (turn : Turn) :
    (s.step initializer turn).current = s.current ∨ ∃ call rest,
      call.Replaces ∧ (s.thread turn.mover).frames = ⟨call, .swapping s.current false⟩ :: rest ∧
        (s.step initializer turn).current = s.current + 1 ∧
        ((s.step initializer turn).holder (s.current + 1)).bare = System.replacement call := by
  obtain ⟨g, hinv, hadvances⟩ := hs.advances turn
  have hnext : s.installed = s.current + 1 := hinv.sound.installed
  rcases hadvances.current with hsame | ⟨call, rest, hreplaces, hf, hcurrent, hholder⟩
  · exact Or.inl hsame
  · exact Or.inr ⟨call, rest, hreplaces, hf, hcurrent.trans hnext, hnext ▸ hholder⟩

theorem Inv.won (h : Inv initializer g l) {r : Reply T E} (hr : r ∈ l.log)
    (hcancels : r.cancels = true) : (l.holders l.current).phase = .cancelled := by
  rcases h.told.cancels with hnone | ⟨-, hcancelled, -⟩
  · exact absurd hcancels (List.countP_eq_zero.1 hnone r hr)
  · exact hcancelled

theorem Reached.succession (hs : Reached initializer s)
    (hduring : ∀ run, ∀ c ∈ (initializer run).during, c.Renews) : Succession initializer s := by
  obtain ⟨g, hinv, hwatch⟩ := hs
  have hs : Reached initializer s := ⟨g, hinv, hwatch⟩
  exact {
    once := hinv.sound.runs
    computed := fun k => (hinv.sound.holders k).outcome
    replaced := hs.replaced
    onward := fun turn hchanged more => by
      rcases hs.replaced turn with hsame | ⟨call, rest, -, -, hnext, -⟩
      · exact absurd hsame hchanged
      · exact Nat.lt_of_lt_of_le (Nat.lt_of_lt_of_eq (Nat.lt_succ_self _) hnext.symm)
          ((hs.step hduring turn).grows hduring more)
    resets := ⟨g.reported, hinv.traced.nodup, fun k hk => (hinv.traced.reported k hk).1,
      hinv.told.resets⟩
    cancels := by
      rcases hinv.told.cancels with hnone | ⟨hone, -⟩
      · exact Nat.le_trans (Nat.le_of_eq hnone) (Nat.zero_le 1)
      · exact Nat.le_of_eq hone
    won := fun r hr => hinv.won hr
    settled := hs.settled hduring
    late := fun hcancelled t call rest turns last a h hrefused =>
      ⟨h.answer_late hs hduring hrefused hcancelled,
        h.unchanged_late hs hduring hrefused hcancelled⟩
    prompt := fun hcancelled t call rest hf hrefused =>
      hs.refuses hduring hf hrefused hcancelled
    read := fun t policy rest turns last a h => h.gives hs hduring
    spared := fun t k rest => hs.never_runs hduring
    counted := hinv.counted_all
    balanced := hinv.balanced }

/-- A reference that nobody has used yet. -/
theorem reached_start {threads : Table (Thread T E)}
    (hthreads : ∀ t, (threads.get t).frames = [] ∧ ∀ c ∈ (threads.get t).calls, c.Renews) :
    Reached initializer (System.start none threads) := by
  have hfresh : ∀ h, (System.start none threads).lineage.holders h = .fresh := fun h => by
    show (((Table.of (Holder.fresh : Holder T E)).set 0 .fresh).get h).bare = .fresh
    rw [Table.get_set]
    split <;> rfl
  have hframes : ∀ t, (System.start none threads).lineage.frames t = [] := fun t => (hthreads t).1
  refine ⟨⟨fun _ => none, fun _ _ => none, [], [], fun _ _ _ => True⟩, ⟨?_, ?_, ?_, ?_, ?_⟩,
    fun _ _ _ => trivial⟩
  · refine ⟨fun t => (hthreads t).2, fun t => ?_, fun t f hf => ?_⟩
    · rw [hframes t]
      trivial
    · rw [hframes t] at hf
      cases hf
  · refine ⟨fun h => ?_, List.nodup_nil, rfl, fun h hlt => ?_, ?_, fun h _ => hfresh h⟩
    · rw [hfresh h]
      exact ⟨fun hno => absurd rfl hno, fun _ => ⟨rfl, rfl⟩, fun hno => (nomatch hno),
        fun _ hmem => (nomatch hmem), fun o hno => nomatch hno⟩
    · exact absurd hlt (Nat.not_lt_zero h)
    · rw [hfresh]
      rfl
  · exact ⟨fun t d h hno => (nomatch hno), fun t d t' d' h hno => (nomatch hno), List.nodup_nil,
      fun h hmem => (nomatch hmem), fun h hlt => absurd hlt (Nat.not_lt_zero h)⟩
  · refine ⟨List.nodup_nil, fun h hmem => (nomatch hmem), fun h hmem => (nomatch hmem), ?_⟩
    rw [Lineage.ends, hfresh]
    rfl
  · exact ⟨.nil, Or.inl rfl⟩

/-- Whatever the calls of its threads, of its initializer, and whatever the order of their turns,
the generations of a resettable reference succeed one another as they should. -/
theorem run_succession (initializer : Nat → Routine T E) (threads : Table (Thread T E))
    (hthreads : ∀ t, (threads.get t).frames = [] ∧ ∀ c ∈ (threads.get t).calls, c.Renews)
    (hduring : ∀ run, ∀ c ∈ (initializer run).during, c.Renews) (schedule : List Turn) :
    Succession initializer ((System.start none threads).run initializer schedule) :=
  ((reached_start hthreads).run hduring schedule).succession hduring

/-- Three threads reset a reference twice, get its third value and cancel it; the third reset is
refused. -/
theorem run_succession_three_threads :
    let initializer : Nat → Routine Nat String := fun run => ⟨[.tryGet], none, .value run⟩
    let threads : Table (Thread Nat String) :=
      ⟨.idle, [⟨[], [.reset, .get ⟨false, true⟩], {}⟩,
        ⟨[], [.get ⟨true, true⟩, .cancel, .reset], {}⟩, ⟨[], [.reset], {}⟩]⟩
    let schedule := (List.replicate 45 [Turn.thread 0, .thread 1, .thread 2]).flatten
    let s := (System.start none threads).run initializer schedule
    s.runs = [0, 1, 2] ∧ s.current = 3 ∧ s.generation = 2 ∧ s.log.length = 9 ∧
      s.answersTo (.thread 0) = [.outcome (.ok ⟨0, 1⟩), .outcome (.ok ⟨2, 3⟩)] ∧
      s.answersTo (.thread 1) =
        [.outcome (.ok ⟨2, 3⟩), .flag true, .outcome (.error .cancelled)] ∧
      s.answersTo (.thread 2) = [.outcome (.ok ⟨1, 2⟩)] ∧ Succession initializer s := by
  refine ⟨by decide +kernel, by decide +kernel, by decide +kernel, by decide +kernel,
    by decide +kernel, by decide +kernel, by decide +kernel, run_succession _ _ ?_ ?_ _⟩
  · intro t
    rcases t with _ | _ | _ | t
    · exact ⟨rfl, by simp [Table.get, Call.Renews]⟩
    · exact ⟨rfl, by simp [Table.get, Call.Renews]⟩
    · exact ⟨rfl, by simp [Table.get, Call.Renews]⟩
    · exact ⟨rfl, by simp [Table.get, Thread.idle]⟩
  · intro run c hc
    rw [List.mem_singleton.1 hc]
    trivial

end SharedCells.Lazy
