import SharedCells.Proofs.Lazy.Generations.Late
import SharedCells.Proofs.Lazy.Lone.Turns

/-!
# Phases of a holder

The phase of a holder tells what its other fields are, although they change one at a time and a
claim may be handed back: `Outline.Phased`. Whoever runs the initializer or uses the holder up
therefore finds the initializer there, and whoever reads that the holder is complete finds its
outcome (`Coherent`).
-/

namespace SharedCells.Lazy

variable {T E : Type}

/-! ## Phases and fields -/

/-- A call holds the claim at such a stage, and may still hand it back or has yet to take the
initializer. -/
def Stage.Provisional : Stage T E → Prop
  | rechecking _ | handingBack _ | arming _ => True
  | _ => False

/-- What the phase of the first holder tells. -/
structure Outline.Phased (o : Outline T E) : Prop where
  /-- The initializer of an unresolved holder is there, and nothing is published. -/
  unresolved : o.phase = .unresolved → o.armed = true ∧ o.outcome = none
  /-- One call holds the claim of a holder that is being resolved. -/
  resolving : o.phase = .resolving →
    ∃ t, claimsOf (o.frames t) = 1 ∧ ∀ u, u ≠ t → claimsOf (o.frames u) = 0
  /-- Otherwise no call holds a claim. -/
  free : o.phase ≠ .resolving → ∀ t, claimsOf (o.frames t) = 0
  complete : o.phase = .complete → ∃ out, o.outcome = some out
  cancelled : o.phase = .cancelled → o.outcome = none
  /-- A claim that may be handed back has taken nothing from the holder. -/
  provisional : ∀ t, ∀ f ∈ o.frames t, f.stage.Provisional → o.armed = true ∧ o.outcome = none

section Phased

variable {initializer : Nat → Routine T E} {source : Option T} {o : Outline T E}

theorem Stage.Fits.provisional {published : Option (Outcome T E)} {armed : Bool} {call : Call}
    {stage : Stage T E} (h : stage.Fits initializer source published armed call)
    (hprovisional : stage.Provisional) : armed = true ∧ published = none := by
  cases stage with
  | rechecking | handingBack | arming => exact ⟨h.2.2.2, h.2.2.1⟩
  | _ => exact hprovisional.elim

theorem Outline.Inv.phased (h : o.Inv initializer source) : o.Phased where
  unresolved hphase := (h.sound.unresolved hphase).symm
  resolving hphase := by
    obtain ⟨owner, howner, hcount⟩ := h.owned
    cases owner with
    | none => exact absurd hphase (howner.1 rfl)
    | some t =>
      refine ⟨t, (hcount t).trans (if_pos rfl), fun u hu => (hcount u).trans (if_neg ?_)⟩
      exact fun hsame => hu (Option.some_inj.1 hsame).symm
  free := h.owned.of_free
  complete hphase := Option.ne_none_iff_exists'.1 (h.sound.complete hphase)
  cancelled hphase := absurd hphase h.sound.present
  provisional t f hf := (h.standing.frames t f hf).2.provisional

theorem Stage.Spared.claims {call : Call} {stage : Stage T E} (h : stage.Spared call) :
    stage.claims = false := by
  cases stage with
  | rechecking | handingBack | arming | running | publishing | completing => exact h.elim
  | _ => rfl

theorem Outline.Barred.phased (h : o.Barred) : o.Phased where
  unresolved hphase := by cases h.phase.symm.trans hphase
  resolving hphase := by cases h.phase.symm.trans hphase
  free _ t := List.countP_eq_zero.2 fun f hf => by simp [(h.frames t f hf).2.claims]
  complete hphase := by cases h.phase.symm.trans hphase
  cancelled _ := h.outcome
  provisional t f hf hprovisional := by
    have hspared := (h.frames t f hf).2
    revert hspared hprovisional
    cases f.stage <;> exact nofun

theorem Lone.phased {s : System T E} (h : Lone initializer s) : s.outline.Phased := by
  cases h with
  | live hinv => exact hinv.phased
  | barred hbarred => exact hbarred.phased

end Phased

/-! ## What lasts -/

/-- An outcome stays published, and a cancelled holder stays cancelled. -/
structure Lasting (s s' : System T E) : Prop where
  outcome : ∀ o, (s.holder 0).outcome = some o → (s'.holder 0).outcome = some o
  cancelled : (s.holder 0).phase = .cancelled → (s'.holder 0).phase = .cancelled

section Runs

variable {initializer : Nat → Routine T E} {s : System T E}

theorem Lone.lasting (h : Lone initializer s)
    (hduring : ∀ run, ∀ c ∈ (initializer run).during, c.Keeps) (more : List Turn) :
    Lasting s (s.run initializer more) := by
  cases h with
  | live hinv =>
    exact ⟨(run_grows hinv hduring more).2, fun hphase => absurd hphase hinv.sound.present⟩
  | barred hbarred =>
    refine ⟨fun o ho => ?_, fun _ => (hbarred.run more).phase⟩
    cases (hbarred.outcome : (s.holder 0).outcome = none).symm.trans ho

/-! ## What the calls find -/

theorem Lone.current (h : Lone initializer s) : s.current = 0 := by
  cases h with
  | live hinv => exact hinv.sound.current
  | barred hbarred => exact hbarred.current

/-- A call that has come to run the initializer finds it. -/
theorem Lone.step_arming (h : Lone initializer s) {t k : Nat} {call : Call}
    {rest : List (Frame T E)} (hf : (s.thread t).frames = ⟨call, .arming k⟩ :: rest) :
    s.step initializer (.thread t) = (s.enter k).2.goTo t
      (.running k .publish (s.runs.length + 1) (initializer (s.runs.length + 1)).during) := by
  cases h with
  | live hinv =>
    obtain ⟨-, rfl, -, hnone, harmed⟩ := hinv.standing.head hf
    have hnone' : (s.holder 0).outcome = none := hnone
    have harmed' : (s.holder 0).armed = true := harmed
    simp only [System.step, System.stepThread, hf, System.advance, hnone', harmed', if_true]
    rfl
  | barred hbarred => exact (hbarred.head hf).2.elim

/-- What a turn does in which a call uses up a holder that nobody else can reach: it answers what
was published, or that the reference is cancelled, or it takes the initializer. -/
def System.Consumes (initializer : Nat → Routine T E) (s s' : System T E) (t : Nat) : Prop :=
  match (s.holder 0).phase with
  | .unresolved => s' = (s.enter 0).2.goTo t
      (.running 0 .consume (s.runs.length + 1) (initializer (s.runs.length + 1)).during)
  | .resolving => False
  | .complete => ∃ o, (s.holder 0).outcome = some o ∧ s' = s.answer t (.outcome o)
  | .cancelled => s' = s.answer t (.outcome (.error .cancelled))

/-- Where no call is being made the reference can be used up. -/
theorem Lone.consumes (h : Lone initializer s) (hidle : ∀ t, (s.thread t).frames = []) (t : Nat) :
    let used := (s.begin t .intoInner).step initializer (.thread t)
    used.Consumes initializer (used.step initializer (.thread t)) t := by
  intro used
  have hbegun : ((s.begin t .intoInner).thread t).frames = [⟨.intoInner, .start⟩] := by
    have hbegin := Lineage.frames_of_put (s.lineage_begin t .intoInner)
    rw [hidle] at hbegin
    exact hbegin
  have hused : used = (s.begin t .intoInner).goTo t (.consuming 0) := by
    show (s.begin t .intoInner).stepThread initializer t = _
    rw [System.stepThread, hbegun, ← h.current]
    rfl
  have hholder : used.holder 0 = s.holder 0 := by rw [hused]; rfl
  have hf : (used.thread t).frames = [⟨.intoInner, .consuming 0⟩] := by
    rw [hused]
    exact System.frames_goTo _ hbegun _
  have hstep : used.step initializer (.thread t) =
      used.advance initializer t .intoInner (.consuming 0) := by
    rw [System.step, System.stepThread, hf]
  have hphased := h.phased
  rw [hstep, System.Consumes, System.advance, hholder]
  cases hphase : (s.holder 0).phase with
  | unresolved =>
    obtain ⟨harmed, hnone⟩ := hphased.unresolved hphase
    have harmed' : (s.holder 0).armed = true := harmed
    have hnone' : (s.holder 0).outcome = none := hnone
    simp only [hnone', harmed', Holder.isCancelled, hphase]
    rfl
  | resolving =>
    -- Nobody is left who could hold the claim.
    obtain ⟨u, hclaims, -⟩ := hphased.resolving hphase
    have hno : s.outline.frames u = [] := hidle u
    rw [hno] at hclaims
    cases hclaims
  | complete =>
    obtain ⟨o, ho⟩ := hphased.complete hphase
    have ho' : (s.holder 0).outcome = some o := ho
    simp only [ho']
    exact ⟨o, rfl, rfl⟩
  | cancelled =>
    have hnone : (s.holder 0).outcome = none := hphased.cancelled hphase
    simp only [hnone, Holder.isCancelled, hphase]
    rfl

/-- A call stays where it looks for the outcome while its thread takes no step. -/
theorem Outline.Inv.frames_entering {source : Option T} (h : s.outline.Inv initializer source)
    {t k : Nat} {call : Call} {rest : List (Frame T E)}
    (hf : (s.thread t).frames = ⟨call, .entering k⟩ :: rest) {turn : Turn}
    (hturn : turn.isStep t = false) :
    ((s.step initializer turn).thread t).frames = ⟨call, .entering k⟩ :: rest := by
  by_cases hmover : t = turn.mover
  · cases turn with
    | thread u => exact absurd (decide_eq_true hmover.symm) (Bool.eq_false_iff.1 hturn)
    | claimFails u | wakes u =>
      obtain rfl : t = u := hmover
      rw [System.step, hf]
      exact hf
    | opens gate => exact hf
  · exact ((h.moves turn).frames_of_ne hmover).trans hf

theorem Outline.Inv.frames_entering_run {source : Option T} (h : s.outline.Inv initializer source)
    (hduring : ∀ run, ∀ c ∈ (initializer run).during, c.Keeps) {t k : Nat} {call : Call}
    {rest : List (Frame T E)} (hf : (s.thread t).frames = ⟨call, .entering k⟩ :: rest)
    {more : List Turn} (hmore : ∀ turn ∈ more, turn.isStep t = false) :
    ((s.run initializer more).thread t).frames = ⟨call, .entering k⟩ :: rest := by
  induction more generalizing s with
  | nil => exact hf
  | cons turn more ih =>
    exact ih (inv_step h hduring turn) (h.frames_entering hf (hmore turn List.mem_cons_self))
      fun turn' hturn' => hmore turn' (List.mem_cons_of_mem turn hturn')

/-- A call that reads that the holder is complete looks for the outcome next, and finds it. -/
theorem Lone.finds (h : Lone initializer s)
    (hduring : ∀ run, ∀ c ∈ (initializer run).during, c.Keeps) {t k : Nat} {call : Call}
    {rest : List (Frame T E)} (hf : (s.thread t).frames = ⟨call, .choosing k⟩ :: rest)
    (hcomplete : (s.holder k).phase = .complete) {more : List Turn}
    (hmore : ∀ turn ∈ more, turn.isStep t = false) :
    ∃ o, s.run initializer (.thread t :: more ++ [.thread t]) =
      (s.run initializer (.thread t :: more)).answer t (.outcome o) := by
  cases h with
  | barred hbarred =>
    obtain rfl : k = 0 := (hbarred.head hf).2
    cases (hbarred.phase : (s.holder 0).phase = .cancelled).symm.trans hcomplete
  | live hinv =>
    obtain ⟨-, rfl, -⟩ := hinv.standing.head hf
    have hnext : s.step initializer (.thread t) = s.goTo t (.entering 0) := by
      simp only [System.step, System.stepThread, hf, System.advance, hcomplete]
    let next := s.goTo t (.entering 0)
    have hinv' : next.outline.Inv initializer _ := hnext ▸ inv_step hinv hduring (.thread t)
    obtain ⟨o, ho⟩ := hinv.phased.complete hcomplete
    have ho' : ((next.run initializer more).holder 0).outcome = some o :=
      (run_grows hinv' hduring more).2 o ho
    have hf' := hinv'.frames_entering_run hduring (s.frames_goTo hf _) hmore
    have hrun : s.run initializer (.thread t :: more) = next.run initializer more :=
      congrArg (System.run initializer · more) hnext
    refine ⟨o, ?_⟩
    rw [s.run_append, hrun]
    show (next.run initializer more).stepThread initializer t = _
    rw [System.stepThread, hf']
    simp only [System.advance, ho']

end Runs

/-! ## All schedules -/

/-- What holds of a reference whose calls leave it its holder. -/
structure Coherent (initializer : Nat → Routine T E) (s : System T E) : Prop where
  phased : s.outline.Phased
  lasting : ∀ more, Lasting s (s.run initializer more)
  /-- A call that has come to run the initializer finds it. -/
  enters : ∀ t call k rest, (s.thread t).frames = ⟨call, .arming k⟩ :: rest →
    s.step initializer (.thread t) = (s.enter k).2.goTo t
      (.running k .publish (s.runs.length + 1) (initializer (s.runs.length + 1)).during)
  /-- So does a call that uses the reference up, unless there is an outcome or it is cancelled. -/
  consumes : (∀ t, (s.thread t).frames = []) → ∀ t,
    let used := (s.begin t .intoInner).step initializer (.thread t)
    used.Consumes initializer (used.step initializer (.thread t)) t
  /-- A call that reads that the holder is complete finds the outcome when it looks next. -/
  finds : ∀ t call k rest, (s.thread t).frames = ⟨call, .choosing k⟩ :: rest →
    (s.holder k).phase = .complete → ∀ more : List Turn,
      (∀ turn ∈ more, turn.isStep t = false) →
        ∃ o, s.run initializer (.thread t :: more ++ [.thread t]) =
          (s.run initializer (.thread t :: more)).answer t (.outcome o)

/-- Whatever a holder has at first, whatever the calls on it and whatever the order of their
turns: the phase of the holder goes with its other fields, and no call misses what it counts
on. -/
theorem run_coherent (initializer : Nat → Routine T E) (origin : Origin T)
    (threads : Table (Thread T E))
    (hthreads : ∀ t, (threads.get t).frames = [] ∧ ∀ c ∈ (threads.get t).calls, c.Keeps)
    (hduring : ∀ run, ∀ c ∈ (initializer run).during, c.Keeps) (schedule : List Turn) :
    Coherent initializer ((origin.system threads).run initializer schedule) := by
  have hstart : Lone initializer (origin.system threads) := lone_start origin hthreads
  have hlone := hstart.run hduring schedule
  exact {
    phased := hlone.phased
    lasting := hlone.lasting hduring
    enters := fun t call k rest hf => hlone.step_arming hf
    consumes := hlone.consumes
    finds := fun t call k rest hf hcomplete more hmore => hlone.finds hduring hf hcomplete hmore }

/-- A call that leaves a retired holder has claimed it and is about to hand the claim back; the
initializer is still there, and another call runs it afterwards. -/
theorem run_coherent_handed_back :
    let initializer : Nat → Routine Nat String := fun _ => ⟨[.tryGet], none, .value 7⟩
    let threads : Table (Thread Nat String) :=
      ⟨.idle, [⟨[], [.resolve 0 ⟨false, true⟩], {}⟩, ⟨[], [.retire 0], {}⟩,
        ⟨[], [.force 0 true], {}⟩]⟩
    let turns := fun n t => List.replicate n (Turn.thread t)
    let schedule := turns 6 0 ++ turns 5 1 ++ turns 1 0
    let s := (Origin.initializer.system threads).run initializer schedule
    (s.holder 0).phase = .resolving ∧ (s.holder 0).armed = true ∧
      (s.run initializer (turns 4 0 ++ turns 20 2)).runs = [0] ∧ Coherent initializer s := by
  refine ⟨by decide +kernel, by decide +kernel, by decide +kernel, run_coherent _ _ _ ?_ ?_ _⟩
  · intro t
    rcases t with _ | _ | _ | t
    · exact ⟨rfl, by simp [Table.get, Call.Keeps]⟩
    · exact ⟨rfl, by simp [Table.get, Call.Keeps]⟩
    · exact ⟨rfl, by simp [Table.get, Call.Keeps]⟩
    · exact ⟨rfl, by simp [Table.get, Thread.idle]⟩
  · intro run c hc
    rw [List.mem_singleton.1 hc]
    trivial

end SharedCells.Lazy
