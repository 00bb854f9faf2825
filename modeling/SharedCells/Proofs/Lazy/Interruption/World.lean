import SharedCells.Proofs.Lazy.Interruption.Order

/-!
# References that share their threads

A `World` is any number of references, of either sort, and the statuses of the threads that make
calls on them. A thread that moves at a reference comes there with the status that others have left
it with, and takes it away again; while it runs an initializer it may make calls on other
references.

* `World.effect`: an event has the effect of one turn on the lineage of its reference, and none on
  those of the others.
* `World.interrupted_iff`: a thread is interrupted if and only if its status was raised and it has
  not lowered it since.
-/

namespace SharedCells

/-! ## Tables -/

namespace Table

variable {α β γ : Type}

def map (f : α → β) (table : Table α) : Table β := ⟨f table.blank, table.rows.map f⟩

/-- The table whose rows are made of those of two tables. -/
def zipWith (f : α → β → γ) (first : Table α) (second : Table β) : Table γ :=
  ⟨f first.blank second.blank,
    (List.range (max first.rows.length second.rows.length)).map fun i =>
      f (first.get i) (second.get i)⟩

@[simp] theorem get_map (f : α → β) (table : Table α) (i : Nat) :
    (table.map f).get i = f (table.get i) := by
  simp only [get, map, List.getElem?_map]
  cases table.rows[i]? <;> rfl

@[simp] theorem get_zipWith (f : α → β → γ) (first : Table α) (second : Table β) (i : Nat) :
    (first.zipWith f second).get i = f (first.get i) (second.get i) := by
  rw [get, zipWith, List.getElem?_map]
  by_cases hi : i < max first.rows.length second.rows.length
  · rw [List.getElem?_range hi]
    rfl
  · rw [get_of_length_le (t := first) (by omega), get_of_length_le (t := second) (by omega),
      List.getElem?_eq_none (by simpa using hi)]
    rfl

end Table

namespace Lazy

/-! ## Statuses -/

namespace System

variable {T E : Type} (s : System T E) {initializer : Nat → Routine T E} {t u : Nat} {call : Call}

/-- A turn is the first step of a call that raises the status of a thread. -/
def Raises (turn : Turn) (u : Nat) : Prop :=
  ∃ t call rest, turn = .thread t ∧ (s.thread t).frames = ⟨call, .start⟩ :: rest ∧
    (call = .interrupt u ∨ call = .interruptSelf ∧ u = t)

/-- A turn is the step in which a thread lowers its own status. -/
def Lowers (turn : Turn) (u : Nat) : Prop :=
  turn = .thread u ∧ ∃ rest, (s.thread u).frames = ⟨.interrupted, .start⟩ :: rest

theorem flag_updateThread (t : Nat) (f : Thread T E → Thread T E) (u : Nat) :
    (s.updateThread t f).flag u =
      if u = t then (f (s.thread t)).status.interrupted else s.flag u := by
  rw [flag, thread, updateThread, Table.get_update]
  split <;> rfl

theorem flag_updateStatus (t : Nat) (f : Status → Status) (u : Nat) :
    (s.updateStatus t f).flag u =
      if u = t then (f (s.thread t).status).interrupted else s.flag u :=
  s.flag_updateThread ..

@[simp] theorem flag_updateThread_of {f : Thread T E → Thread T E}
    (hf : ∀ thread, (f thread).status = thread.status) :
    (s.updateThread t f).flag u = s.flag u := by
  rw [flag_updateThread, hf]
  split
  · rename_i hu
    rw [hu, flag]
  · rfl

@[simp] theorem flag_goTo (stage : Stage T E) : (s.goTo t stage).flag u = s.flag u :=
  s.flag_updateThread_of fun _ => rfl

@[simp] theorem flag_begin : (s.begin t call).flag u = s.flag u :=
  s.flag_updateThread_of fun _ => rfl

@[simp] theorem flag_answer (a : Answer T E) : (s.answer t a).flag u = s.flag u := by
  rw [answer]
  split
  · rfl
  · rename_i call stage frames hf
    have hpop : (s.updateThread t fun thread => { thread with frames }).flag u = s.flag u :=
      s.flag_updateThread_of fun _ => rfl
    dsimp only
    split <;> exact hpop

@[simp] theorem flag_updateHolder (h : Nat) (f : Holder T E → Holder T E) :
    (s.updateHolder h f).flag u = s.flag u := rfl

@[simp] theorem flag_unpark : (s.updateStatus t Status.unpark).flag u = s.flag u := by
  rw [flag_updateStatus]
  split
  · rename_i hu
    rw [hu]
    rfl
  · rfl

@[simp] theorem flag_allocate : s.allocate.2.flag u = s.flag u := rfl

@[simp] theorem flag_giveUp (h : Nat) : (s.giveUp t call h).flag u = s.flag u := by
  cases call <;> simp [giveUp]

@[simp] theorem flag_conclude (h : Nat) (ending : Ending T E) (purpose : Purpose) :
    (s.conclude t h ending purpose).flag u = s.flag u := by
  cases purpose
  · exact flag_goTo ..
  · exact flag_answer ..

/-- A thread that passes a park has the status that it had. -/
theorem flag_park {status : Status} (hpark : (s.thread t).status.park? = some status) :
    (s.updateStatus t fun _ => status).flag u = s.flag u := by
  rw [flag_updateStatus]
  split
  · rename_i hu
    rw [Status.park?] at hpark
    split at hpark
    · rw [← Option.some.inj hpark, hu]
      rfl
    · cases hpark
  · rfl

/-- Only the first step of a call may change the status of a thread. -/
theorem flag_advance {stage : Stage T E} (hstage : stage ≠ .start) :
    (s.advance initializer t call stage).flag u = s.flag u := by
  cases stage with
  | start => exact absurd rfl hstage
  | running h purpose run calls =>
    cases calls with
    | nil => simp only [advance]; split <;> simp
    | cons c cs => simp [advance]
  | waking threads after =>
    cases threads with
    | nil => cases after <;> simp [advance, follow]
    | cons v vs => simp [advance]
  | arming h =>
    simp only [advance]
    split
    · simp
    · split
      · exact flag_goTo ..
      · simp
  | consuming h =>
    simp only [advance]
    split
    · simp
    · split
      · simp
      · split
        · exact flag_goTo ..
        · simp
  | parked h =>
    simp only [advance]
    split
    · rename_i status hpark
      rw [flag_goTo, s.flag_park hpark]
    · rfl
  | leaving h wake => cases wake <;> simp [advance]
  | swapping h keeps =>
    simp only [advance]
    split
    · rw [flag_goTo]
      split <;> rfl
    · simp
  | swapped h =>
    simp only [advance]
    split <;> simp
  | counting h => exact flag_goTo ..
  | peeking h | entering h | checking h | choosing h | claiming h =>
    simp only [advance]
    split <;> simp
  | rechecking h | handingBack h | publishing h o | completing h o | draining h after
  | registering h | watching h | watchingRetired h | watchingStatus h | testing h | retiring h
  | unparking v => simp [advance]

variable {turn : Turn}

theorem flag_raised (h : s.Raises turn u) : (s.step initializer turn).flag u = true := by
  obtain ⟨t, call, rest, rfl, hf, hcall⟩ := h
  have hraised : (s.updateStatus u Status.raise).flag u = true := by
    rw [flag_updateStatus, if_pos rfl]
    rfl
  rw [step, stepThread, hf]
  rcases hcall with rfl | ⟨rfl, rfl⟩
  · exact (flag_goTo ..).trans hraised
  · exact (flag_goTo ..).trans hraised

theorem flag_lowered (h : s.Lowers turn u) : (s.step initializer turn).flag u = false := by
  obtain ⟨rfl, rest, hf⟩ := h
  rw [step, stepThread, hf]
  refine (flag_answer ..).trans ?_
  rw [flag_updateStatus, if_pos rfl]
  rfl

theorem flag_launch {rest : List (Frame T E)} (hf : (s.thread t).frames = ⟨call, .start⟩ :: rest)
    (hraises : ¬s.Raises (.thread t) u) (hlowers : ¬s.Lowers (.thread t) u) :
    (s.launch t call).flag u = s.flag u := by
  cases call with
  | interrupt v =>
    have hne : u ≠ v := by
      rintro rfl
      exact hraises ⟨t, _, rest, rfl, hf, Or.inl rfl⟩
    rw [launch, flag_goTo, flag_updateStatus, if_neg hne]
  | interruptSelf =>
    have hne : u ≠ t := by
      rintro rfl
      exact hraises ⟨u, _, rest, rfl, hf, Or.inr ⟨rfl, rfl⟩⟩
    rw [launch, flag_goTo, flag_updateStatus, if_neg hne]
  | interrupted =>
    have hne : u ≠ t := by
      rintro rfl
      exact hlowers ⟨rfl, rest, hf⟩
    refine (flag_answer ..).trans ?_
    rw [flag_updateStatus, if_neg hne]
  | _ => simp [launch]

/-- Nothing else changes the status of a thread. -/
theorem flag_kept (hraises : ¬s.Raises turn u) (hlowers : ¬s.Lowers turn u) :
    (s.step initializer turn).flag u = s.flag u := by
  cases turn with
  | thread t =>
    rw [step, stepThread]
    split
    · rename_i call stage rest hf
      by_cases hstage : stage = .start
      · subst hstage
        exact s.flag_launch hf hraises hlowers
      · exact s.flag_advance hstage
    · rename_i call calls hf hcalls
      rw [flag_begin]
      exact s.flag_updateThread_of fun _ => rfl
    · rfl
  | claimFails t | wakes t =>
    rw [step]
    split
    · exact flag_goTo ..
    · rfl
  | opens gate => rfl

/-- The reference after its threads took over the statuses that they have elsewhere. -/
def heed (statuses : Table Status) : System T E :=
  { s with threads := s.threads.zipWith (fun thread status => { thread with status }) statuses }

theorem thread_heed (statuses : Table Status) (t : Nat) :
    (s.heed statuses).thread t = { s.thread t with status := statuses.get t } :=
  Table.get_zipWith ..

theorem lineage_heed (statuses : Table Status) : (s.heed statuses).lineage = s.lineage := by
  have hframes : ∀ t, ((s.heed statuses).thread t).frames = (s.thread t).frames := fun t => by
    rw [thread_heed]
  have hcalls : ∀ t, ((s.heed statuses).thread t).calls = (s.thread t).calls := fun t => by
    rw [thread_heed]
  simp only [lineage, hframes, hcalls]
  rfl

end System

/-! ## Worlds -/

/-- References and the statuses of the threads that make calls on them. -/
structure World (ι : Type) (T E : ι → Type) where
  reference : (i : ι) → System (T i) (E i)
  statuses : Table Status

namespace World

variable {ι : Type} {T E : ι → Type}

/-- Whether a thread was interrupted. -/
def flag (w : World ι T E) (t : Nat) : Bool := (w.statuses.get t).interrupted

def lineage (w : World ι T E) (i : ι) : Lineage (T i) (E i) := (w.reference i).lineage

/-- A reference with the statuses that its threads have. -/
def here (w : World ι T E) (i : ι) : System (T i) (E i) := (w.reference i).heed w.statuses

theorem lineage_here (w : World ι T E) (i : ι) : (w.here i).lineage = w.lineage i :=
  (w.reference i).lineage_heed w.statuses

theorem flag_here (w : World ι T E) (i : ι) (t : Nat) : (w.here i).flag t = w.flag t :=
  congrArg (fun thread => thread.status.interrupted) ((w.reference i).thread_heed w.statuses t)

def Raises (w : World ι T E) (event : ι × Turn) (t : Nat) : Prop :=
  (w.here event.1).Raises event.2 t

def Lowers (w : World ι T E) (event : ι × Turn) (t : Nat) : Prop :=
  (w.here event.1).Lowers event.2 t

/-- References before their first call, and threads that are not interrupted. -/
def start (source : (i : ι) → Option (T i)) (threads : (i : ι) → Table (Thread (T i) (E i))) :
    World ι T E :=
  ⟨fun i => .start (source i) (threads i), .of {}⟩

variable [DecidableEq ι]

/-- A turn at one of the references. -/
def step (initializer : (i : ι) → Nat → Routine (T i) (E i)) (w : World ι T E)
    (event : ι × Turn) : World ι T E :=
  let s := (w.here event.1).step (initializer event.1) event.2
  { reference := Function.update w.reference event.1 s
    statuses := s.threads.map Thread.status }

def run (initializer : (i : ι) → Nat → Routine (T i) (E i)) (w : World ι T E)
    (events : List (ι × Turn)) : World ι T E :=
  events.foldl (step initializer) w

variable {initializer : (i : ι) → Nat → Routine (T i) (E i)} (w : World ι T E)

theorem run_append (events more : List (ι × Turn)) :
    w.run initializer (events ++ more) = (w.run initializer events).run initializer more :=
  List.foldl_append ..

theorem run_append_singleton (events : List (ι × Turn)) (event : ι × Turn) :
    w.run initializer (events ++ [event]) = (w.run initializer events).step initializer event :=
  w.run_append ..

theorem lineage_step (i : ι) (turn : Turn) :
    (w.step initializer (i, turn)).lineage i = ((w.here i).step (initializer i) turn).lineage :=
  congrArg System.lineage (Function.update_self ..)

theorem lineage_step_of_ne {i j : ι} (hne : j ≠ i) (turn : Turn) :
    (w.step initializer (i, turn)).lineage j = w.lineage j :=
  congrArg System.lineage (Function.update_of_ne hne ..)

theorem flag_step (i : ι) (turn : Turn) (t : Nat) :
    (w.step initializer (i, turn)).flag t = ((w.here i).step (initializer i) turn).flag t :=
  congrArg Status.interrupted (Table.get_map ..)

/-- What an event does to a reference: its turn, or nothing. -/
theorem effect (h : ∀ i, Orderly (w.lineage i)) (event : ι × Turn) (i : ι) :
    (event.1 = i ∧ Effect (initializer i) (w.lineage i) (w.flag event.2.mover) event.2.mover
        ((w.step initializer event).lineage i)) ∨
      event.1 ≠ i ∧ (w.step initializer event).lineage i = w.lineage i := by
  obtain ⟨j, turn⟩ := event
  by_cases hj : j = i
  · subst hj
    have heffect := step_effect (initializer j) (w.here j) turn fun f rest hf =>
      ((h j).head ((congrArg (Lineage.frames · turn.mover) (w.lineage_here j)).symm.trans
        hf)).offered
    rw [w.lineage_here, w.flag_here, ← w.lineage_step] at heffect
    exact Or.inl ⟨rfl, heffect⟩
  · exact Or.inr ⟨hj, w.lineage_step_of_ne (Ne.symm hj) turn⟩

section Runs

variable {w} (hduring : ∀ i run, ∀ c ∈ (initializer i run).during, c.Offered ∧ ¬c.Awaits)
  (h : ∀ i, Orderly (w.lineage i))

include hduring h

theorem orderly_step (event : ι × Turn) (i : ι) :
    Orderly ((w.step initializer event).lineage i) := by
  rcases w.effect h event i with ⟨-, heffect⟩ | ⟨-, hsame⟩
  · exact (h i).effect heffect (hduring i)
  · exact hsame ▸ h i

theorem orderly_run (events : List (ι × Turn)) (i : ι) :
    Orderly ((w.run initializer events).lineage i) := by
  induction events using List.reverseRecOn generalizing i with
  | nil => exact h i
  | append_singleton events event ih =>
    rw [run_append_singleton]
    exact orderly_step hduring ih event i

theorem lasts_run (events : List (ι × Turn)) (i : ι) :
    Lasts (w.lineage i) ((w.run initializer events).lineage i) := by
  induction events using List.reverseRecOn with
  | nil => exact .refl _
  | append_singleton events event ih =>
    rw [run_append_singleton]
    have hevents := orderly_run hduring h events
    rcases effect (w.run initializer events) hevents event i with ⟨-, heffect⟩ | ⟨-, hsame⟩
    · exact ih.trans ((hevents i).lasts heffect)
    · exact hsame ▸ ih

/-- A reference that is cancelled stays so. -/
theorem current_run {i : ι}
    (hcancelled : ((w.lineage i).holders (w.lineage i).current).phase = .cancelled)
    (events : List (ι × Turn)) :
    ((w.run initializer events).lineage i).current = (w.lineage i).current := by
  induction events using List.reverseRecOn with
  | nil => rfl
  | append_singleton events event ih =>
    rw [run_append_singleton]
    have hevents := orderly_run hduring h events
    rcases effect (w.run initializer events) hevents event i with ⟨-, heffect⟩ | ⟨-, hsame⟩
    · refine ((hevents i).current_of_cancelled heffect ?_).trans ih
      rw [ih]
      exact ((lasts_run hduring h events i).cancelled _ (h i).current).2 hcancelled
    · rw [hsame, ih]

end Runs

/-! ## Interruptions -/

/-- The status of a thread was raised in a schedule, and the thread has not lowered it since. -/
def Interrupted (initializer : (i : ι) → Nat → Routine (T i) (E i)) (w : World ι T E)
    (events : List (ι × Turn)) (t : Nat) : Prop :=
  ∃ before event after, events = before ++ event :: after ∧
    (w.run initializer before).Raises event t ∧
      ∀ between event' more, after = between ++ event' :: more →
        ¬(w.run initializer (before ++ event :: between)).Lowers event' t

variable {w}

theorem interrupted_append_singleton {events : List (ι × Turn)} {event : ι × Turn} {t : Nat} :
    w.Interrupted initializer (events ++ [event]) t ↔
      (w.run initializer events).Raises event t ∨
        w.Interrupted initializer events t ∧ ¬(w.run initializer events).Lowers event t := by
  constructor
  · rintro ⟨before, raising, after, hsplit, hraises, hlasts⟩
    rcases List.eq_nil_or_concat' after with rfl | ⟨after', last, rfl⟩
    · obtain ⟨rfl, hsame⟩ := List.append_inj' hsplit rfl
      obtain rfl := List.singleton_inj.1 hsame
      exact Or.inl hraises
    · rw [← List.cons_append, ← List.append_assoc] at hsplit
      obtain ⟨rfl, hsame⟩ := List.append_inj' hsplit rfl
      obtain rfl := List.singleton_inj.1 hsame
      refine Or.inr ⟨⟨before, raising, after', rfl, hraises, ?_⟩, hlasts after' event [] rfl⟩
      rintro between event' more rfl
      exact hlasts between event' (more ++ [event]) (by simp)
  · rintro (hraises | ⟨⟨before, raising, after, rfl, hraises, hlasts⟩, hlowers⟩)
    · exact ⟨events, event, [], rfl, hraises, fun between event' more hno => by simp at hno⟩
    · refine ⟨before, raising, after ++ [event], by simp, hraises,
        fun between event' more hsplit => ?_⟩
      rcases List.eq_nil_or_concat' more with rfl | ⟨more', last, rfl⟩
      · obtain ⟨rfl, hsame⟩ := List.append_inj' hsplit rfl
        obtain rfl := List.singleton_inj.1 hsame
        exact hlowers
      · rw [← List.cons_append, ← List.append_assoc] at hsplit
        exact hlasts between event' more' (List.append_inj' hsplit rfl).1

/-- An event that neither raises nor lowers the status of a thread leaves it as it is. -/
theorem flag_kept {event : ι × Turn} {t : Nat} (hraises : ¬w.Raises event t)
    (hlowers : ¬w.Lowers event t) : (w.step initializer event).flag t = w.flag t := by
  rw [w.flag_step event.1 event.2, (w.here event.1).flag_kept hraises hlowers, flag_here]

/-- A thread is interrupted if its status was raised and not lowered since, and only then. -/
theorem interrupted_iff (hw : ∀ t, w.flag t = false) (events : List (ι × Turn)) (t : Nat) :
    (w.run initializer events).flag t = true ↔ w.Interrupted initializer events t := by
  induction events using List.reverseRecOn with
  | nil =>
    constructor
    · intro hno
      cases (hw t).symm.trans hno
    · rintro ⟨before, event, after, hno, -⟩
      simp at hno
  | append_singleton events event ih =>
    rw [run_append_singleton, interrupted_append_singleton]
    by_cases hraises : (w.run initializer events).Raises event t
    · have hflag : ((w.run initializer events).step initializer event).flag t = true :=
        (flag_step _ event.1 event.2 t).trans (System.flag_raised _ hraises)
      exact ⟨fun _ => Or.inl hraises, fun _ => hflag⟩
    · by_cases hlowers : (w.run initializer events).Lowers event t
      · have hflag : ((w.run initializer events).step initializer event).flag t = false :=
          (flag_step _ event.1 event.2 t).trans (System.flag_lowered _ hlowers)
        simp [hraises, hlowers, hflag]
      · rw [flag_kept hraises hlowers, ih]
        simp [hraises, hlowers]

end World

end Lazy

end SharedCells
