import SharedCells.Proofs.CopyOnWrite.Serial
import SharedCells.Proofs.Turns

/-!
# Writers in a race write one after another

In every state that a race of writers reaches, by whatever schedule, the writes have been made
one after another in the order in which they took the lock, up to the one that holds it now.

* `Open` says, stage by stage, how far that last write has come, and `Tracks` that a race is no
  further than that from some writes made one after another.
* `step_moves` lists what one step may do to such a race. Every invariant is shown from it.
* `Serialized` collects what follows for a race from its start.
-/

namespace SharedCells.CopyOnWrite

variable {C : Type}

/-- Whether a write at a stage was stored. -/
def Stage.hasStored : Stage C → Bool
  | stored | counted => true
  | idle | admitted | loaded _ | copied _ _ | mutated _ _ | abandoned => false

namespace Race

/-! ## What happens in a race -/

/-- The write with which a thread takes the lock in its next step, if it does. -/
def admission (r : Race C) (i : Nat) : Option (Call C) :=
  match r.writers[i]?, r.holder with
  | some ⟨.idle, job :: _⟩, none => some ⟨i, job⟩
  | _, _ => none

/-- The write that a thread ends in its next step, if it does, and whether it has succeeded. -/
def ending (r : Race C) (i : Nat) : Option (Call C × Bool) :=
  match r.writers[i]? with
  | some ⟨.counted, job :: _⟩ => some (⟨i, job⟩, true)
  | some ⟨.abandoned, job :: _⟩ => some (⟨i, job⟩, false)
  | _ => none

/-- The write that holds the lock. -/
def underway (r : Race C) : Option (Call C) :=
  r.holder.bind fun i => r.writers[i]?.bind fun w => w.jobs.head?.map (Call.mk i)

/-- What happens in the steps of a schedule, in order. -/
def collect {α : Type} (happens : Race C → Nat → Option α) (r : Race C) : List Nat → List α
  | [] => []
  | i :: schedule => (happens r i).toList ++ collect happens (r.step i) schedule

/-- The writes of a schedule in the order in which they take the lock. -/
def admitted (r : Race C) (schedule : List Nat) : List (Call C) := collect admission r schedule

/-- The writes that end in a schedule, in the order in which they end. -/
def ended (r : Race C) (schedule : List Nat) : List (Call C × Bool) := collect ending r schedule

/-! ## The write that holds the lock -/

/-- How far a write has come that was begun after some others were made one after another: its
stage, and the cell, the supply and the log of the race. -/
inductive Open (st : Served C) (i : Nat) (job : Job C) :
    Stage C → CopyOnWrite C → Supply → List (Landing C) → Prop
  | admitted : Open st i job .admitted st.cell st.supply st.log
  | loaded : Open st i job (.loaded st.cell.contents) st.cell st.supply st.log
  | copied {w : C} {s' : Supply} : st.cell.copyCurrent st.supply = (.ok w, s') →
    Open st i job (.copied s'.copies w) st.cell s' st.log
  | mutated {w w' : C} {s' : Supply} : st.cell.copyCurrent st.supply = (.ok w, s') →
    job w = some w' → Open st i job (.mutated s'.copies w') st.cell s' st.log
  | stored {w w' : C} {s' : Supply} : st.cell.copyCurrent st.supply = (.ok w, s') →
    job w = some w' →
      Open st i job .stored { st.cell with published := (s'.allocate w').1 }
        (s'.allocate w').2 (⟨i, s'.copies, job⟩ :: st.log)
  | counted {w w' : C} {s' : Supply} : st.cell.copyCurrent st.supply = (.ok w, s') →
    job w = some w' →
      Open st i job .counted (st.cell.publish s' w').1 (st.cell.publish s' w').2
        (⟨i, s'.copies, job⟩ :: st.log)
  | copyFailed {p : Panic} {s' : Supply} : st.cell.copyCurrent st.supply = (.error p, s') →
    Open st i job .abandoned st.cell s' st.log
  | refused {w : C} {s' : Supply} : st.cell.copyCurrent st.supply = (.ok w, s') →
    job w = none → Open st i job .abandoned st.cell s' st.log

/-- A race that is no further than one open write from writes made one after another. -/
structure Tracks (st : Served C) (r : Race C) : Prop where
  /-- Threads without the lock are outside. -/
  outside : ∀ i w, r.writers[i]? = some w → r.holder ≠ some i → w.stage = .idle
  /-- Without an open write the race is where those writes leave it. -/
  free : r.holder = none → r.cell = st.cell ∧ r.supply = st.supply ∧ r.log = st.log
  /-- The thread with the lock has an open write. -/
  held : ∀ i, r.holder = some i → ∃ stage job jobs,
    r.writers[i]? = some ⟨stage, job :: jobs⟩ ∧ Open st i job stage r.cell r.supply r.log

/-- What one step of a thread may do to such a race: the race afterwards, the write that takes
the lock, and the write that ends. -/
inductive Moves (st : Served C) (r : Race C) (i : Nat) :
    Race C → Option (Call C) → Option (Call C × Bool) → Prop
  | stays : Moves st r i r none none
  | locks {job : Job C} {jobs : List (Job C)} : r.holder = none →
    r.writers[i]? = some ⟨.idle, job :: jobs⟩ →
      Moves st r i (goTo { r with holder := some i } i .admitted) (some ⟨i, job⟩) none
  /-- The open write comes one stage further. -/
  | proceeds {job : Job C} {jobs : List (Job C)} {stage stage' : Stage C} {cell : CopyOnWrite C}
    {supply : Supply} {log : List (Landing C)} : r.holder = some i →
    r.writers[i]? = some ⟨stage, job :: jobs⟩ → Open st i job stage' cell supply log →
      Moves st r i (goTo { r with cell, supply, log } i stage') none none
  /-- The open write ends and has done what it does at once. -/
  | releases {job : Job C} {jobs : List (Job C)} {stage : Stage C} {b : Bool} :
    r.holder = some i → r.writers[i]? = some ⟨stage, job :: jobs⟩ →
      st.serve ⟨i, job⟩ = ⟨r.cell, r.supply, r.log, st.ended ++ [(⟨i, job⟩, b)]⟩ →
        Moves st r i (r.release i) none (some (⟨i, job⟩, b))

/-- A thread that is not outside holds the lock, and its write is open. -/
theorem Tracks.open_of_ne_idle {st : Served C} {r : Race C} (h : Tracks st r) {i : Nat}
    {stage : Stage C} {job : Job C} {jobs : List (Job C)}
    (hw : r.writers[i]? = some ⟨stage, job :: jobs⟩) (hstage : stage ≠ .idle) :
    r.holder = some i ∧ Open st i job stage r.cell r.supply r.log := by
  have hholder : r.holder = some i := by
    by_contra hno
    exact hstage (h.outside i _ hw hno)
  obtain ⟨stage', job', jobs', hw', hopen⟩ := h.held i hholder
  rw [hw] at hw'
  cases hw'
  exact ⟨hholder, hopen⟩

theorem step_moves {st : Served C} {r : Race C} (h : Tracks st r) (i : Nat) :
    Moves st r i (r.step i) (r.admission i) (r.ending i) := by
  obtain ⟨cell, supply, holder, writers, log⟩ := r
  rcases hw : writers[i]? with _ | ⟨stage, _ | ⟨job, jobs⟩⟩
  · simp only [step, admission, ending, hw]
    exact .stays
  · simp only [step, admission, ending, hw]
    exact .stays
  · by_cases hidle : stage = .idle
    · subst hidle
      cases holder with
      | none =>
        simp only [step, admission, ending, hw, advance]
        exact .locks rfl hw
      | some j =>
        simp only [step, admission, ending, hw, advance]
        exact .stays
    · obtain ⟨hholder, hopen⟩ := h.open_of_ne_idle hw hidle
      -- One case for each stage; only the last three end the write.
      cases hopen <;> simp only [step, admission, ending, hw, advance]
      case admitted => exact .proceeds hholder hw .loaded
      case loaded =>
        rcases hcopy : st.cell.copier.copy st.supply st.cell.contents with ⟨copied, s'⟩
        cases copied with
        | error p => exact .proceeds hholder hw (.copyFailed hcopy)
        | ok w => exact .proceeds hholder hw (.copied hcopy)
      case copied w hcopy =>
        cases hjob : job w with
        | none => exact .proceeds hholder hw (.refused hcopy hjob)
        | some w' => exact .proceeds hholder hw (.mutated hcopy hjob)
      case mutated hjob hcopy => exact .proceeds hholder hw (.stored hcopy hjob)
      case stored hcopy hjob => exact .proceeds hholder hw (.counted hcopy hjob)
      case counted hcopy hjob => exact .releases hholder hw (Served.serve_of_some hcopy hjob)
      case copyFailed hcopy => exact .releases hholder hw (Served.serve_of_copy_error hcopy)
      case refused hjob hcopy => exact .releases hholder hw (Served.serve_of_none hcopy hjob)

/-! ## What every step keeps -/

section Writers

variable {r : Race C} {i : Nat}

theorem writers_goTo_self {w : Writer C} (stage : Stage C) (hw : r.writers[i]? = some w) :
    (r.goTo i stage).writers[i]? = some { w with stage } := by
  rw [goTo, List.getElem?_modify_eq, hw]
  rfl

theorem writers_goTo_of_ne {j : Nat} (stage : Stage C) (hij : i ≠ j) :
    (r.goTo i stage).writers[j]? = r.writers[j]? := by
  rw [goTo, List.getElem?_modify_ne _ _ hij]

theorem writers_release_self {w : Writer C} (hw : r.writers[i]? = some w) :
    (r.release i).writers[i]? = some ⟨.idle, w.jobs.tail⟩ := by
  rw [release, List.getElem?_modify_eq, hw]
  rfl

theorem writers_release_of_ne {j : Nat} (hij : i ≠ j) :
    (r.release i).writers[j]? = r.writers[j]? := by
  rw [release, List.getElem?_modify_ne _ _ hij]

theorem underway_eq {stage : Stage C} {job : Job C} {jobs : List (Job C)}
    (hholder : r.holder = some i) (hw : r.writers[i]? = some ⟨stage, job :: jobs⟩) :
    r.underway = some ⟨i, job⟩ := by
  rw [underway, hholder, Option.bind_some, hw]
  rfl

theorem underway_of_free (hholder : r.holder = none) : r.underway = none := by
  rw [underway, hholder]
  rfl

theorem jobs_goTo (stage : Stage C) :
    (r.goTo i stage).writers.map Writer.jobs = r.writers.map Writer.jobs := by
  have hmap : (r.goTo i stage).writers.map Writer.jobs = (r.writers.map Writer.jobs).modify i id :=
    map_modify fun _ _ => rfl
  rw [hmap, List.modify_id]

theorem jobs_release :
    (r.release i).writers.map Writer.jobs = (r.writers.map Writer.jobs).modify i List.tail :=
  map_modify fun _ _ => rfl

end Writers

/-- What holds in every state of a race between threads with given writes, when some writes have
taken the lock and those that have ended are as good as made one after another. -/
structure Inv (given : List (List (Job C))) (taken : List (Call C)) (st : Served C) (r : Race C) :
    Prop where
  /-- Only the open write is not made yet. -/
  tracks : Tracks st r
  /-- Writes end in the order in which they take the lock. -/
  order : taken = st.ended.map Prod.fst ++ r.underway.toList
  /-- Each thread makes its writes in turn. -/
  turns : ∀ i jobs, given[i]? = some jobs → ∃ w, r.writers[i]? = some w ∧
    ((st.ended.map Prod.fst).filter fun call => call.writer == i).map Call.job ++ w.jobs = jobs
  /-- All writes have ended or are still to be made. -/
  shared : ((st.ended.map Prod.fst).map Call.job ++ (r.writers.map Writer.jobs).flatten).Perm
    given.flatten

theorem inv_start (cell : CopyOnWrite C) (s : Supply) (given : List (List (Job C))) :
    Inv given [] (.start cell s) (start cell s given) where
  tracks := by
    refine ⟨fun i w hw _ => ?_, fun _ => ⟨rfl, rfl, rfl⟩, fun i hi => nomatch hi⟩
    rw [start, List.getElem?_map, Option.map_eq_some_iff] at hw
    obtain ⟨jobs, -, rfl⟩ := hw
    rfl
  order := rfl
  turns i jobs hi := by
    refine ⟨⟨.idle, jobs⟩, ?_, rfl⟩
    rw [start, List.getElem?_map, hi]
    rfl
  shared := by
    have hjobs : (given.map (Writer.mk Stage.idle)).map Writer.jobs = given := by
      rw [List.map_map]
      exact List.map_id given
    rw [start, hjobs]
    exact .refl _

section Move

variable {given : List (List (Job C))} {taken : List (Call C)} {st : Served C} {r : Race C}
  {i : Nat} {stage : Stage C} {job : Job C} {jobs : List (Job C)}

/-- The thread that holds the lock in the end comes to another stage of its write. -/
theorem Inv.goTo (h : Inv given taken st r) (hw : r.writers[i]? = some ⟨stage, job :: jobs⟩)
    (hothers : ∀ j, r.holder = some j → j = i) {stage' : Stage C} {r' : Race C}
    (hwriters : r'.writers = r.writers) (hholder : r'.holder = some i)
    (hopen : Open st i job stage' r'.cell r'.supply r'.log) :
    Inv given (st.ended.map Prod.fst ++ [⟨i, job⟩]) st (r'.goTo i stage') := by
  have hw' : r'.writers[i]? = some ⟨stage, job :: jobs⟩ := by rw [hwriters, hw]
  have hself := writers_goTo_self stage' hw'
  have hholder' : (r'.goTo i stage').holder = some i := hholder
  refine ⟨⟨fun j w hj hno => ?_, fun hnone => ?_, fun j hj => ?_⟩, ?_, fun j given' hj => ?_, ?_⟩
  · have hij : i ≠ j := fun hij => hno (hij ▸ hholder')
    rw [writers_goTo_of_ne stage' hij, hwriters] at hj
    exact h.tracks.outside j w hj fun hr => hij (hothers j hr).symm
  · rw [hholder'] at hnone
    cases hnone
  · rw [hholder'] at hj
    cases hj
    exact ⟨stage', job, jobs, hself, hopen⟩
  · rw [underway_eq hholder' hself]
    rfl
  · obtain ⟨w, hjw, hturns⟩ := h.turns j given' hj
    by_cases hij : i = j
    · subst hij
      rw [hw] at hjw
      cases hjw
      exact ⟨_, hself, hturns⟩
    · refine ⟨w, ?_, hturns⟩
      rw [writers_goTo_of_ne stage' hij, hwriters, hjw]
  · rw [jobs_goTo, hwriters]
    exact h.shared

/-- The thread that holds the lock ends its write. -/
theorem Inv.release (h : Inv given taken st r) (hw : r.writers[i]? = some ⟨stage, job :: jobs⟩)
    (hholder : r.holder = some i) {b : Bool}
    (hserve : st.serve ⟨i, job⟩ = ⟨r.cell, r.supply, r.log, st.ended ++ [(⟨i, job⟩, b)]⟩) :
    Inv given taken (st.serve ⟨i, job⟩) (r.release i) := by
  have hself := writers_release_self hw
  have hended : (st.serve ⟨i, job⟩).ended.map Prod.fst = st.ended.map Prod.fst ++ [⟨i, job⟩] := by
    rw [hserve, List.map_append]
    rfl
  refine ⟨⟨fun j w hj _ => ?_, fun _ => ?_, fun j hj => nomatch hj⟩, ?_, fun j given' hj => ?_, ?_⟩
  · by_cases hij : i = j
    · subst hij
      rw [hself] at hj
      cases hj
      rfl
    · rw [writers_release_of_ne hij] at hj
      refine h.tracks.outside j w hj fun hr => hij ?_
      rw [hholder] at hr
      exact Option.some_inj.1 hr
  · rw [hserve]
    exact ⟨rfl, rfl, rfl⟩
  · rw [hended, underway_of_free rfl, h.order, underway_eq hholder hw, Option.toList_none,
      List.append_nil]
    rfl
  · obtain ⟨w, hjw, hturns⟩ := h.turns j given' hj
    rw [hended, List.filter_append, List.map_append]
    by_cases hij : i = j
    · subst hij
      rw [hw] at hjw
      cases hjw
      refine ⟨_, hself, ?_⟩
      rw [← hturns]
      simp
    · refine ⟨w, ?_, ?_⟩
      · rw [writers_release_of_ne hij, hjw]
      · rw [← hturns]
        simp [hij]
  · have hjobs : (r.writers.map Writer.jobs)[i]? = some (job :: jobs) := by
      rw [List.getElem?_map, hw]
      rfl
    rw [hended, jobs_release, List.map_append, List.append_assoc]
    exact ((flatten_modify_tail hjobs).symm.append_left _).trans h.shared

theorem Inv.move {r' : Race C} {a : Option (Call C)} {e : Option (Call C × Bool)}
    (h : Inv given taken st r) (hmove : Moves st r i r' a e) :
    Inv given (taken ++ a.toList) (st.serveAll (e.toList.map Prod.fst)) r' := by
  cases hmove with
  | stays =>
    rw [Option.toList_none, List.append_nil]
    exact h
  | locks hholder hw =>
    obtain ⟨hcell, hsupply, hlog⟩ := h.tracks.free hholder
    rw [h.order, underway_of_free hholder, Option.toList_none, List.append_nil]
    refine h.goTo hw (fun j hj => ?_) rfl rfl ?_
    · rw [hholder] at hj
      cases hj
    · rw [hcell, hsupply, hlog]
      exact .admitted
  | proceeds hholder hw hopen =>
    rw [h.order, underway_eq hholder hw, Option.toList_none, List.append_nil]
    refine h.goTo hw (fun j hj => ?_) rfl hholder hopen
    rw [hholder] at hj
    exact (Option.some_inj.1 hj).symm
  | releases hholder hw hserve =>
    rw [Option.toList_none, List.append_nil]
    exact h.release hw hholder hserve

end Move

/-! ## What every run keeps -/

theorem Moves.ended_eq {st : Served C} {r r' : Race C} {i : Nat} {a : Option (Call C)}
    {e : Option (Call C × Bool)} (hmove : Moves st r i r' a e) :
    (st.serveAll (e.toList.map Prod.fst)).ended = st.ended ++ e.toList := by
  cases hmove with
  | stays => exact (List.append_nil _).symm
  | locks => exact (List.append_nil _).symm
  | proceeds => exact (List.append_nil _).symm
  | releases hholder hw hserve => exact congrArg Served.ended hserve

theorem Inv.run {given : List (List (Job C))} {taken : List (Call C)} {st : Served C} {r : Race C}
    (h : Inv given taken st r) (schedule : List Nat) :
    Inv given (taken ++ r.admitted schedule) (st.serveAll ((r.ended schedule).map Prod.fst))
        (r.run schedule) ∧
      (st.serveAll ((r.ended schedule).map Prod.fst)).ended = st.ended ++ r.ended schedule := by
  induction schedule generalizing taken st r with
  | nil => exact ⟨(List.append_nil taken).symm ▸ h, (List.append_nil _).symm⟩
  | cons i schedule ih =>
    have hmove := step_moves h.tracks i
    obtain ⟨hinv, hended⟩ := ih (h.move hmove)
    have hcalls : st.serveAll ((r.ended (i :: schedule)).map Prod.fst) =
        (st.serveAll ((r.ending i).toList.map Prod.fst)).serveAll
          (((r.step i).ended schedule).map Prod.fst) := by
      rw [ended, collect, List.map_append, Served.serveAll, List.foldl_append]
      rfl
    rw [hcalls]
    refine ⟨?_, ?_⟩
    · rw [List.append_assoc] at hinv
      exact hinv
    · rw [hended, hmove.ended_eq, List.append_assoc]
      rfl

/-- No step takes a write from the log or turns the version back. -/
theorem step_grows (r : Race C) (i : Nat) :
    (∃ later, (r.step i).log = later ++ r.log) ∧ r.cell.version ≤ (r.step i).cell.version := by
  unfold step
  split
  · rename_i stage job jobs hw
    cases stage <;> unfold advance <;> dsimp only
    case idle => split <;> exact ⟨⟨[], rfl⟩, Nat.le_refl _⟩
    case admitted => exact ⟨⟨[], rfl⟩, Nat.le_refl _⟩
    case loaded c => split <;> exact ⟨⟨[], rfl⟩, Nat.le_refl _⟩
    case copied number w => split <;> exact ⟨⟨[], rfl⟩, Nat.le_refl _⟩
    case mutated number w => exact ⟨⟨[⟨i, number, job⟩], rfl⟩, Nat.le_refl _⟩
    case stored => exact ⟨⟨[], rfl⟩, Nat.le_succ _⟩
    case counted => exact ⟨⟨[], rfl⟩, Nat.le_refl _⟩
    case abandoned => exact ⟨⟨[], rfl⟩, Nat.le_refl _⟩
  · exact ⟨⟨[], rfl⟩, Nat.le_refl _⟩

theorem run_grows (r : Race C) (schedule : List Nat) :
    (∃ later, (r.run schedule).log = later ++ r.log) ∧
      r.cell.version ≤ (r.run schedule).cell.version := by
  induction schedule generalizing r with
  | nil => exact ⟨⟨[], rfl⟩, Nat.le_refl _⟩
  | cons i schedule ih =>
    obtain ⟨⟨later, hlater⟩, hrest⟩ := ih (r.step i)
    obtain ⟨⟨new, hnew⟩, hstep⟩ := r.step_grows i
    refine ⟨⟨later ++ new, ?_⟩, Nat.le_trans hstep hrest⟩
    rw [List.append_assoc, ← hnew]
    exact hlater

/-! ## What a race comes to -/

/-- The write that holds the lock, if it was stored. -/
def landing (r : Race C) : Option (Call C) :=
  r.holder.bind fun i => r.writers[i]?.bind fun w =>
    if w.stage.hasStored then w.jobs.head?.map (Call.mk i) else none

section Conclusions

variable {first cell : CopyOnWrite C} {st : Served C} {i : Nat} {job : Job C} {stage : Stage C}
  {s : Supply} {log : List (Landing C)}

theorem Open.content (h : Open st i job stage cell s log) (hst : st.Sound first) :
    Replays first.copier first.contents log cell.contents := by
  have hstored : ∀ {w w' : C} {s' : Supply}, st.cell.copyCurrent st.supply = (.ok w, s') →
      job w = some w' → Replays first.copier first.contents (⟨i, s'.copies, job⟩ :: st.log) w' := by
    intro w w' s' hcopy hjob
    have hnumbered := Copier.numbered_of_copy hcopy
    rw [hst.copier] at hnumbered
    exact .cons hst.content hnumbered hjob
  cases h with
  | admitted => exact hst.content
  | loaded => exact hst.content
  | copied => exact hst.content
  | mutated => exact hst.content
  | stored hcopy hjob => exact hstored hcopy hjob
  | counted hcopy hjob => exact hstored hcopy hjob
  | copyFailed => exact hst.content
  | refused => exact hst.content

theorem Open.version (h : Open st i job stage cell s log) (hst : st.Sound first) :
    stage = .stored ∧ cell.version + 1 = first.version + log.length ∨
      stage ≠ .stored ∧ cell.version = first.version + log.length := by
  have hversion := hst.version
  cases h with
  | stored hcopy hjob =>
    refine Or.inl ⟨rfl, ?_⟩
    rw [List.length_cons]
    show st.cell.version + 1 = _
    omega
  | counted hcopy hjob =>
    refine Or.inr ⟨by simp, ?_⟩
    rw [List.length_cons]
    show st.cell.version + 1 = _
    omega
  | _ => exact Or.inr ⟨by simp, hversion⟩

theorem Open.landed (h : Open st i job stage cell s log) (hst : st.Sound first) :
    log.reverse.map Landing.call = (st.ended.filter Prod.snd).map Prod.fst ++
      if stage.hasStored then [⟨i, job⟩] else [] := by
  have hlanded := hst.landed
  cases h with
  | stored hcopy hjob =>
    rw [List.reverse_cons, List.map_append, hlanded]
    rfl
  | counted hcopy hjob =>
    rw [List.reverse_cons, List.map_append, hlanded]
    rfl
  | _ => simpa [Stage.hasStored] using hlanded

variable {r : Race C}

/-- The published content is made by the writes stored so far, in their order. -/
theorem Tracks.content (h : Tracks st r) (hst : st.Sound first) :
    Replays first.copier first.contents r.log r.cell.contents := by
  cases hholder : r.holder with
  | none =>
    obtain ⟨hcell, -, hlog⟩ := h.free hholder
    rw [hcell, hlog]
    exact hst.content
  | some i =>
    obtain ⟨stage, job, jobs, -, hopen⟩ := h.held i hholder
    exact hopen.content hst

/-- The version counts the writes stored so far, but for one that was stored and not counted. -/
theorem Tracks.version (h : Tracks st r) (hst : st.Sound first) :
    (∃ (i : Nat) (w : Writer C), r.holder = some i ∧ r.writers[i]? = some w ∧
        w.stage = .stored ∧ r.cell.version + 1 = first.version + r.log.length) ∨
      (∀ (i : Nat) (w : Writer C), r.writers[i]? = some w → w.stage ≠ .stored) ∧
        r.cell.version = first.version + r.log.length := by
  cases hholder : r.holder with
  | none =>
    obtain ⟨hcell, -, hlog⟩ := h.free hholder
    refine Or.inr ⟨fun i w hw hstored => ?_, by rw [hcell, hlog, hst.version]⟩
    have hidle := h.outside i w hw (by simp [hholder])
    rw [hidle] at hstored
    cases hstored
  | some i =>
    obtain ⟨stage, job, jobs, hw, hopen⟩ := h.held i hholder
    rcases hopen.version hst with ⟨hstored, hversion⟩ | ⟨hstored, hversion⟩
    · exact Or.inl ⟨i, _, rfl, hw, hstored, hversion⟩
    · refine Or.inr ⟨fun j w hj => ?_, hversion⟩
      by_cases hij : i = j
      · subst hij
        rw [hw] at hj
        cases hj
        exact hstored
      · have hidle := h.outside j w hj (by simp [hholder, hij])
        rw [hidle]
        simp

/-- The writes stored so far are those that have succeeded, and the open one if it was stored. -/
theorem Tracks.landed (h : Tracks st r) (hst : st.Sound first) :
    r.log.reverse.map Landing.call =
      (st.ended.filter Prod.snd).map Prod.fst ++ r.landing.toList := by
  cases hholder : r.holder with
  | none =>
    obtain ⟨-, -, hlog⟩ := h.free hholder
    rw [hlog, hst.landed, landing, hholder]
    simp
  | some i =>
    obtain ⟨stage, job, jobs, hw, hopen⟩ := h.held i hholder
    rw [hopen.landed hst, landing, hholder, Option.bind_some, hw, Option.bind_some]
    cases stage.hasStored <;> rfl

/-- When no thread has a write left, nobody holds the lock. -/
theorem Tracks.free_of_done (h : Tracks st r) (hdone : ∀ w ∈ r.writers, w.jobs = []) :
    r.holder = none := by
  cases hholder : r.holder with
  | none => rfl
  | some i =>
    obtain ⟨stage, job, jobs, hw, -⟩ := h.held i hholder
    cases hdone _ (List.mem_of_getElem? hw)

end Conclusions

/-- What a race comes to between threads with given writes on a cell. So far some writes have
taken the lock, some have ended, and those that have ended come to `made` when they are made at
once, one after another. -/
structure Serialized (cell : CopyOnWrite C) (given : List (List (Job C))) (taken : List (Call C))
    (calls : List (Call C × Bool)) (made : Served C) (r : Race C) : Prop where
  /-- Writes end in the order in which they take the lock; at most one is open. -/
  order : taken = calls.map Prod.fst ++ r.underway.toList
  /-- Each thread makes each of its writes once, in turn. -/
  turns : ∀ i jobs, given[i]? = some jobs → ∃ w, r.writers[i]? = some w ∧
    ((calls.map Prod.fst).filter fun call => call.writer == i).map Call.job ++ w.jobs = jobs
  /-- Each write ends as it does at once. -/
  atomic : made.ended = calls
  /-- Without an open write the cell and its supply are as when all are made at once. -/
  settled : r.holder = none → r.cell = made.cell ∧ r.supply = made.supply
  /-- The content is made by the writes stored so far: each copies and mutates what those before
  it made. -/
  content : Replays cell.copier cell.contents r.log r.cell.contents
  /-- Those are the writes that have succeeded, in the order in which they held the lock, and the
  open one once it is stored. -/
  landed : r.log.reverse.map Landing.call =
    (calls.filter Prod.snd).map Prod.fst ++ r.landing.toList
  /-- The version counts them, but for one that was stored and is not counted yet. -/
  version : (∃ (i : Nat) (w : Writer C), r.holder = some i ∧ r.writers[i]? = some w ∧
      w.stage = .stored ∧ r.cell.version + 1 = cell.version + r.log.length) ∨
    (∀ (i : Nat) (w : Writer C), r.writers[i]? = some w → w.stage ≠ .stored) ∧
      r.cell.version = cell.version + r.log.length
  /-- In the end it counts the writes that have succeeded. -/
  done : (∀ w ∈ r.writers, w.jobs = []) →
    r.holder = none ∧ r.cell.version = cell.version + calls.countP Prod.snd
  /-- In the end, if mutations commute and copies are faithful, the order does not matter. -/
  commutes : (∀ w ∈ r.writers, w.jobs = []) → cell.copier.Faithful (· = ·) →
    (∀ j ∈ given.flatten, ∀ k ∈ given.flatten, ∀ c, Job.effect j (Job.effect k c) =
      Job.effect k (Job.effect j c)) →
    r.cell.contents = given.flatten.foldl (fun c job => Job.effect job c) cell.contents

theorem Inv.contents_of_commuting {cell : CopyOnWrite C} {s : Supply}
    {given : List (List (Job C))} {taken calls : List (Call C)} {r : Race C}
    (h : Inv given taken ((Served.start cell s).serveAll calls) r)
    (hdone : ∀ w ∈ r.writers, w.jobs = []) (hfaithful : cell.copier.Faithful (· = ·))
    (hcommutes : ∀ j ∈ given.flatten, ∀ k ∈ given.flatten, ∀ c,
      Job.effect j (Job.effect k c) = Job.effect k (Job.effect j c)) :
    r.cell.contents = given.flatten.foldl (fun c job => Job.effect job c) cell.contents := by
  have hnone : (r.writers.map Writer.jobs).flatten = [] := by
    rw [List.flatten_eq_nil_iff]
    intro jobs hjobs
    obtain ⟨w, hw, rfl⟩ := List.mem_map.1 hjobs
    exact hdone w hw
  have hperm := h.shared
  rw [hnone, List.append_nil, Served.ended_serveAll] at hperm
  obtain ⟨hcell, -⟩ := h.tracks.free (h.tracks.free_of_done hdone)
  rw [hcell, Served.contents_serveAll hfaithful]
  refine (hperm.symm.foldl_eq' (fun j hj k hk c => ?_) _).symm
  exact hcommutes k hk j hj c

theorem Inv.serialized {cell : CopyOnWrite C} {s : Supply} {given : List (List (Job C))}
    {taken calls : List (Call C)} {r : Race C}
    (h : Inv given taken ((Served.start cell s).serveAll calls) r) :
    Serialized cell given taken ((Served.start cell s).serveAll calls).ended
      ((Served.start cell s).serveAll calls) r := by
  have hsound := (Served.sound_start cell s).serveAll calls
  have hlanded := h.tracks.landed hsound
  have hversion := h.tracks.version hsound
  refine ⟨h.order, h.turns, rfl, fun hfree => ?_, h.tracks.content hsound, hlanded, hversion,
    fun hdone => ?_, h.contents_of_commuting⟩
  · obtain ⟨hcell, hsupply, -⟩ := h.tracks.free hfree
    exact ⟨hcell, hsupply⟩
  · have hfree := h.tracks.free_of_done hdone
    obtain ⟨hcell, -, hlog⟩ := h.tracks.free hfree
    have hlength := congrArg List.length hlanded
    rw [landing, hfree] at hlength
    refine ⟨hfree, ?_⟩
    rw [hcell, hsound.version, ← hlog, List.countP_eq_length_filter]
    simpa using hlength

/-- After every schedule a race comes to writes made one after another. -/
theorem serialized (cell : CopyOnWrite C) (s : Supply) (given : List (List (Job C)))
    (schedule : List Nat) :
    Serialized cell given ((start cell s given).admitted schedule)
      ((start cell s given).ended schedule)
      ((Served.start cell s).serveAll (((start cell s given).ended schedule).map Prod.fst))
      ((start cell s given).run schedule) := by
  obtain ⟨hinv, hended⟩ := (inv_start cell s given).run schedule
  rw [List.nil_append] at hinv
  have hserialized := hinv.serialized
  rw [hended] at hserialized
  exact hserialized

/-- Of the writes in the log the version counts the first ones. -/
theorem Serialized.first {cell : CopyOnWrite C} {given : List (List (Job C))}
    {taken : List (Call C)} {calls : List (Call C × Bool)} {made : Served C} {r : Race C}
    (h : Serialized cell given taken calls made r) (hle : cell.version ≤ r.cell.version) :
    ∃ opened first, r.log = opened ++ first ∧ r.cell.version = cell.version + first.length := by
  rcases h.version with ⟨i, w, -, -, -, hversion⟩ | ⟨-, hversion⟩
  · cases hlog : r.log with
    | nil =>
      rw [hlog, List.length_nil] at hversion
      omega
    | cons l log =>
      refine ⟨[l], log, rfl, ?_⟩
      rw [hlog, List.length_cons] at hversion
      omega
  · exact ⟨[], r.log, rfl, hversion⟩

theorem of_withCopier {initial : C} {copier : Copier C} {s₀ s : Supply} {cell : CopyOnWrite C}
    (hcell : withCopier initial copier s₀ = (.ok cell, s)) :
    (copier.copy s₀ initial).1 = .ok cell.contents ∧ cell.copier = copier ∧ cell.version = 0 := by
  unfold withCopier at hcell
  rcases hcopy : copier.copy s₀ initial with ⟨copied, s'⟩
  rw [hcopy] at hcell
  cases copied with
  | error p => cases hcell
  | ok c =>
    cases hcell
    exact ⟨rfl, rfl, rfl⟩

/-- A race on a cell that was made with a copy function comes to writes made one after another,
after every schedule. The version never runs ahead of the writes, so a reader who has seen it
finds at least as many of the first writes in a snapshot taken later. -/
theorem run_serialized {initial : C} {copier : Copier C} {s₀ s : Supply} {cell : CopyOnWrite C}
    (hcell : withCopier initial copier s₀ = (.ok cell, s)) (given : List (List (Job C)))
    (schedule : List Nat) :
    ((copier.copy s₀ initial).1 = .ok cell.contents ∧ cell.copier = copier ∧ cell.version = 0) ∧
      Serialized cell given ((start cell s given).admitted schedule)
        ((start cell s given).ended schedule)
        ((Served.start cell s).serveAll (((start cell s given).ended schedule).map Prod.fst))
        ((start cell s given).run schedule) ∧
      ∀ more, ∃ first later,
        first.length = ((start cell s given).run schedule).cell.version ∧
          ((start cell s given).run (schedule ++ more)).log = later ++ first ∧
          Replays copier cell.contents (later ++ first)
            ((start cell s given).run (schedule ++ more)).cell.contents := by
  obtain ⟨hcontents, hcopier, hzero⟩ := of_withCopier hcell
  have hnow := serialized cell s given schedule
  refine ⟨⟨hcontents, hcopier, hzero⟩, hnow, fun more => ?_⟩
  obtain ⟨opened, first, hlog, hversion⟩ := hnow.first ((start cell s given).run_grows schedule).2
  obtain ⟨⟨later, hlater⟩, -⟩ := ((start cell s given).run schedule).run_grows more
  have hrun : ((start cell s given).run schedule).run more =
      (start cell s given).run (schedule ++ more) := (List.foldl_append ..).symm
  rw [hrun, hlog, ← List.append_assoc] at hlater
  have hcontent := (serialized cell s given (schedule ++ more)).content
  rw [hlater, hcopier] at hcontent
  exact ⟨first, later ++ opened, by omega, hlater, hcontent⟩

/-- Two threads, of which one makes a write that fails first and the other waits for it. -/
theorem run_serialized_two_writers :
    let copier : Copier Nat := .custom fun number n => .ok (n + number)
    let cell : CopyOnWrite Nat := ⟨⟨0, 6⟩, copier, 0⟩
    let given : List (List (Job Nat)) := [[fun n => some (n * 2)], [fun _ => none, some]]
    let schedule := [1, 0, 1, 1, 1, 1] ++ List.replicate 7 0 ++ List.replicate 7 1
    let r := start cell ⟨1, 1⟩ given
    withCopier 5 copier {} = (.ok cell, ⟨1, 1⟩) ∧
      (r.run schedule).cell.contents = (6 + 3) * 2 + 4 ∧ (r.run schedule).cell.version = 2 ∧
      Serialized cell given (r.admitted schedule) (r.ended schedule)
        ((Served.start cell ⟨1, 1⟩).serveAll ((r.ended schedule).map Prod.fst))
        (r.run schedule) := by
  refine ⟨rfl, ?_, ?_, ?_⟩
  · decide +kernel
  · decide +kernel
  · exact (@run_serialized Nat 5 (.custom fun number n => .ok (n + number)) {} _ _ rfl _ _).2.1

end Race

end SharedCells.CopyOnWrite
