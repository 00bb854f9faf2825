import SharedCells.Proofs.Lazy.Generations.Ledger
import SharedCells.Proofs.Lazy.Once

/-!
# Turns at a reference with one holder

A reference has one holder for good if its calls leave it that. The holder has its initializer or
its outcome when the first call begins, or it is cancelled (`Origin`). `Lone` is what holds of such
a reference after every schedule: the invariant of a reference that is resolved once, or else that
of a cancelled holder (`Outline.Barred`), which nobody claims or waits for.
-/

namespace SharedCells.Lazy

variable {T E : Type}

/-! ## Moves -/

namespace Outline

/-- Calls that have made other calls run the initializer. -/
def Nested (o : Outline T E) : Prop := ∀ t, ∀ f ∈ (o.frames t).tail, f.Runs

end Outline

section Moves

variable {initializer : Nat → Routine T E} {source : Option T} {o o' : Outline T E} {t u : Nat}

/-- A thread that does not move makes the calls that it made. -/
theorem Moves.frames_of_ne (h : Moves initializer source o t o') (hne : u ≠ t) :
    o'.frames u = o.frames u := by
  cases h with
  | stays => rfl
  | @replies call stage a rest =>
    obtain ⟨log, hreply, -⟩ := o.reply_eq t rest call a
    rw [hreply]
    exact Outline.frames_put_of_ne rest hne
  | _ => exact Outline.frames_put_of_ne _ hne

theorem Outline.Nested.put (h : o.Nested) {fs : List (Frame T E)} (hfs : ∀ f ∈ fs.tail, f.Runs)
    (hframes : o'.frames = (o.put t fs).frames) : o'.Nested := by
  intro u f hf
  rw [hframes] at hf
  by_cases hu : u = t
  · rw [hu, frames_put_self] at hf
    exact hfs f hf
  · rw [frames_put_of_ne fs hu] at hf
    exact h u f hf

theorem Outline.Nested.move (h : o.Nested) (hmove : Moves initializer source o t o') :
    o'.Nested := by
  have htail : ∀ {f rest}, o.frames t = f :: rest → ∀ g ∈ rest, g.Runs := fun hf g hg =>
    h t g (by rw [hf]; exact hg)
  cases hmove with
  | stays => exact h
  | begins hf hcalls => exact h.put (by simp) rfl
  | @nests call c h' run purpose cs rest hf =>
    refine h.put (fun g hg => ?_) rfl
    rcases List.mem_cons.1 hg with rfl | hg
    · exact ⟨h', purpose, run, cs, rfl⟩
    · exact htail hf g hg
  | @replies call stage a rest hf =>
    obtain ⟨log, hreply, -⟩ := o.reply_eq t rest call a
    rw [hreply]
    exact h.put (fun g hg => htail hf g (List.mem_of_mem_tail hg)) rfl
  | passes hf | claims hf | handsBack _ hf | enters _ hf | publishes _ hf | completes _ hf =>
    exact h.put (htail hf) rfl

/-- A holder stays complete. -/
theorem Moves.complete (h : Moves initializer source o t o') (howned : o.Owned)
    (hcomplete : o.phase = .complete) : o'.phase = .complete := by
  cases h with
  | @replies call stage a rest =>
    obtain ⟨log, hreply, -⟩ := o.reply_eq t rest call a
    rw [hreply]
    exact hcomplete
  | claims hf hphase => cases hphase.symm.trans hcomplete
  | handsBack _ hf => cases (howned.of_claims hf rfl).1.symm.trans hcomplete
  | completes => rfl
  | _ => exact hcomplete

/-- Whoever makes a holder complete is about to wake the waiters. -/
theorem Moves.completed (h : Moves initializer source o t o') (hcomplete : o'.phase = .complete) :
    o.phase = .complete ∨
      ∃ call after rest, o'.frames t = ⟨call, .draining 0 after⟩ :: rest := by
  cases h with
  | @replies call stage a rest =>
    obtain ⟨log, hreply, -⟩ := o.reply_eq t rest call a
    rw [hreply] at hcomplete
    exact Or.inl hcomplete
  | claims | handsBack => cases hcomplete
  | completes => exact Or.inr ⟨_, _, _, Outline.frames_put_self _⟩
  | _ => exact Or.inl hcomplete

/-- What a turn does to a reference whose calls leave it its holder. -/
theorem Outline.Inv.moves {s : System T E} (h : s.outline.Inv initializer source) (turn : Turn) :
    Moves initializer source s.outline turn.mover (s.step initializer turn).outline := by
  cases turn with
  | thread t => exact stepThread_moves h.sound.current h.sound.present (h.standing.frames t)
  | claimFails t | wakes t =>
    rw [System.step]
    split
    · rename_i hf
      obtain ⟨-, rfl, hasks⟩ := h.standing.head hf
      exact goTo_moves rfl hf rfl ⟨rfl, hasks⟩
    · exact .stays
  | opens gate => exact .stays

end Moves

/-! ## Installed holders -/

namespace System

variable (s : System T E) {initializer : Nat → Routine T E} {t : Nat} {call : Call}

@[simp] theorem installed_answer (a : Answer T E) : (s.answer t a).installed = s.installed := by
  rw [answer]
  split
  · rfl
  · split <;> rfl

@[simp] theorem installed_goTo (stage : Stage T E) : (s.goTo t stage).installed = s.installed :=
  rfl

@[simp] theorem installed_begin : (s.begin t call).installed = s.installed := rfl

@[simp] theorem installed_updateHolder (h : Nat) (f : Holder T E → Holder T E) :
    (s.updateHolder h f).installed = s.installed := rfl

@[simp] theorem installed_updateStatus (u : Nat) (f : Status → Status) :
    (s.updateStatus u f).installed = s.installed := rfl

@[simp] theorem installed_allocate : s.allocate.2.installed = s.installed := rfl

@[simp] theorem installed_giveUp (h : Nat) : (s.giveUp t call h).installed = s.installed := by
  cases call <;> simp [giveUp]

@[simp] theorem installed_conclude (h : Nat) (ending : Ending T E) (purpose : Purpose) :
    (s.conclude t h ending purpose).installed = s.installed := by
  cases purpose
  · rfl
  · exact installed_answer ..

/-- Holders stay installed. -/
theorem installed_le_advance (stage : Stage T E) :
    s.installed ≤ (s.advance initializer t call stage).installed := by
  cases stage with
  | start => cases call <;> simp [advance, launch]
  | running h purpose run calls =>
    cases calls with
    | nil => simp only [advance]; split <;> simp
    | cons c cs => simp [advance]
  | waking threads after =>
    cases threads with
    | nil => cases after <;> simp [advance, follow]
    | cons v vs => simp [advance]
  | leaving h wake => cases wake <;> simp [advance]
  | swapping h keeps =>
    simp only [advance]
    split
    · split
      · exact Nat.le_refl _
      · exact Nat.le_succ _
    · exact Nat.le_refl _
  | entering h | choosing h | claiming h | checking h | peeking h | parked h | swapped h | arming h
  | consuming h =>
    simp only [advance, enter]
    (repeat' split) <;> simp
  | _ => simp [advance]

theorem installed_le_step (turn : Turn) : s.installed ≤ (s.step initializer turn).installed := by
  cases turn with
  | thread t =>
    rw [step, stepThread]
    split
    · exact s.installed_le_advance _
    · exact Nat.le_refl _
    · exact Nat.le_refl _
  | claimFails t | wakes t =>
    rw [step]
    split <;> exact Nat.le_refl _
  | opens gate => exact Nat.le_refl _

end System

/-! ## Cancelled holders -/

/-- Where a call may stand at a cancelled holder: nobody claims it or waits for it. -/
def Stage.Spared (call : Call) : Stage T E → Prop
  | start | unparking _ => True
  | peeking h | entering h | checking h | choosing h => h = 0
  | retiring h => h = 0 ∧ call = .retire 0
  | draining h after => h = 0 ∧ call = .retire 0 ∧ after = .answer .done
  | waking _ after => after = .answer .done
  | _ => False

/-- A call that has begun stands where it may. -/
def Frame.Spared (f : Frame T E) : Prop := f.call.Keeps ∧ f.stage.Spared f.call

/-- The holder is cancelled, and every call stands where it may. -/
structure Outline.Barred (o : Outline T E) : Prop where
  current : o.current = 0
  phase : o.phase = .cancelled
  outcome : o.outcome = none
  calls : ∀ t, ∀ c ∈ o.calls t, c.Keeps
  frames : ∀ t, ∀ f ∈ o.frames t, f.Spared

theorem Outline.Barred.head {o : Outline T E} (h : o.Barred) {t : Nat} {f : Frame T E}
    {rest : List (Frame T E)} (hf : o.frames t = f :: rest) : f.Spared :=
  h.frames t f (hf ▸ List.mem_cons_self)

/-- What a turn changes for one thread. -/
theorem Outline.Barred.put {o : Outline T E} (h : o.Barred) {t : Nat} {fs : List (Frame T E)}
    {calls : Nat → List Call} (hcalls : ∀ u, ∀ c ∈ calls u, c.Keeps)
    (hfs : ∀ f ∈ fs, f.Spared) (log : List (Reply T E)) :
    ({ o.put t fs with calls, log } : Outline T E).Barred := by
  refine ⟨h.current, h.phase, h.outcome, hcalls, fun u f hf => ?_⟩
  by_cases hu : u = t
  · subst hu
    exact hfs f (frames_put_self (o := o) fs ▸ hf)
  · exact h.frames u f (frames_put_of_ne (o := o) fs hu ▸ hf)

section Barred

variable {initializer : Nat → Routine T E} {s s' : System T E} {t : Nat} {call : Call}
  {stage : Stage T E} {rest : List (Frame T E)}

theorem barred_goTo (h : s.outline.Barred) (hs : s'.outline = s.outline)
    (hf : s.outline.frames t = ⟨call, stage⟩ :: rest) {stage' : Stage T E}
    (hspared : stage'.Spared call) : (s'.goTo t stage').outline.Barred := by
  rw [s'.outline_goTo (hs ▸ hf), hs]
  refine h.put h.calls (fun f hf' => ?_) s.log
  rcases List.mem_cons.1 hf' with rfl | hf'
  · exact ⟨(h.head hf).1, hspared⟩
  · exact h.frames t f (hf ▸ List.mem_cons_of_mem _ hf')

theorem barred_answer (h : s.outline.Barred) (hs : s'.outline = s.outline)
    (hf : s.outline.frames t = ⟨call, stage⟩ :: rest) (a : Answer T E) :
    (s'.answer t a).outline.Barred := by
  obtain ⟨log, hreply, -⟩ := s.outline.reply_eq t rest call a
  rw [s'.outline_answer (hs ▸ hf), hs, hreply]
  exact h.put h.calls (fun f hf' => h.frames t f (hf ▸ List.mem_cons_of_mem _ hf')) _

theorem barred_launch (h : s.outline.Barred) (hf : s.outline.frames t = ⟨call, .start⟩ :: rest) :
    (s.launch t call).outline.Barred := by
  have hkeeps : call.Keeps := (h.head hf).1
  cases call with
  | get policy | tryGet | isInitialized | isFailed | isCancelled | inspect =>
    exact barred_goTo h rfl hf h.current
  | resolve k policy | force k interruptible => exact barred_goTo h rfl hf hkeeps
  | retire k => exact barred_goTo h rfl hf ⟨hkeeps, congrArg Call.retire hkeeps⟩
  | generation | isInterrupted => exact barred_answer h rfl hf _
  | interrupted => exact barred_answer h (s.outline_updateStatus t _) hf _
  | interrupt u => exact barred_goTo h (s.outline_updateStatus u _) hf trivial
  | interruptSelf => exact barred_goTo h (s.outline_updateStatus t _) hf trivial
  | reset | cancel | intoInner => exact hkeeps.elim

theorem barred_advance (h : s.outline.Barred) (hf : s.outline.frames t = ⟨call, stage⟩ :: rest) :
    (s.advance initializer t call stage).outline.Barred := by
  have hspared : stage.Spared call := (h.head hf).2
  have hphase : (s.holder 0).phase = .cancelled := h.phase
  have houtcome : (s.holder 0).outcome = none := h.outcome
  cases stage with
  | start => exact barred_launch h hf
  | peeking k =>
    simp only [System.advance]
    split
    · exact barred_answer h rfl hf _
    · exact barred_goTo h rfl hf hspared
  | entering k =>
    obtain rfl : k = 0 := hspared
    simp only [System.advance, houtcome]
    split <;> exact barred_goTo h rfl hf rfl
  | checking k =>
    obtain rfl : k = 0 := hspared
    simp only [System.advance]
    split
    · cases call with
      | get policy => exact barred_goTo h rfl hf trivial
      | resolve k policy => exact barred_answer h rfl hf _
      | _ => exact barred_goTo h rfl hf rfl
    · exact barred_goTo h rfl hf rfl
  | choosing k =>
    obtain rfl : k = 0 := hspared
    simp only [System.advance, hphase]
    exact barred_answer h rfl hf _
  | retiring k =>
    obtain ⟨rfl, rfl⟩ := hspared
    exact barred_goTo h (s.outline_updateHolder _) hf ⟨rfl, rfl, rfl⟩
  | draining k after =>
    obtain ⟨rfl, -, hafter⟩ := hspared
    exact barred_goTo h (s.outline_updateWaiters _) hf hafter
  | waking us after =>
    obtain rfl : after = .answer .done := hspared
    cases us with
    | nil => exact barred_answer h rfl hf _
    | cons u us => exact barred_goTo h (s.outline_updateStatus u _) hf rfl
  | unparking u => exact barred_answer h (s.outline_updateStatus u _) hf _
  | _ => exact hspared.elim

theorem Outline.Barred.step (h : s.outline.Barred) (turn : Turn) :
    (s.step initializer turn).outline.Barred := by
  cases turn with
  | thread t =>
    rw [System.step, System.stepThread]
    split
    · rename_i hf
      exact barred_advance h hf
    · rename_i call calls hf hcalls
      rw [s.outline_begin_next t call calls hf]
      have hnext : ∀ c ∈ call :: calls, c.Keeps := hcalls ▸ h.calls t
      refine h.put (fun u c hc => ?_) (fun f hf' => ?_) s.log
      · by_cases hu : u = t
        · subst hu
          rw [Function.update_self] at hc
          exact hnext c (List.mem_cons_of_mem _ hc)
        · rw [Function.update_of_ne hu] at hc
          exact h.calls u c hc
      · rw [List.mem_singleton.1 hf']
        exact ⟨hnext call List.mem_cons_self, trivial⟩
    · exact h
  | claimFails t | wakes t =>
    rw [System.step]
    split
    · rename_i hf
      exact (h.head (show s.outline.frames t = _ from hf)).2.elim
    · exact h
  | opens gate => exact h

theorem Outline.Barred.run (h : s.outline.Barred) (schedule : List Turn) :
    (s.run initializer schedule).outline.Barred := by
  induction schedule generalizing s with
  | nil => exact h
  | cons turn schedule ih => exact ih (h.step turn)

end Barred

/-! ## Runs -/

/-- What a holder has when the first call begins. -/
inductive Origin (T : Type) where
  | initializer
  | value (v : T)
  | cancelled

/-- The reference before its first call. -/
def Origin.system (threads : Table (Thread T E)) : Origin T → System T E
  | initializer => .start none threads
  | value v => .start (some v) threads
  | cancelled => { System.new .cancelled with threads }

/-- What holds of a reference with one holder at all times. -/
inductive Lone (initializer : Nat → Routine T E) (s : System T E) : Prop
  | live {source : Option T} : s.outline.Inv initializer source → s.outline.Nested →
    0 < s.installed → Lone initializer s
  | barred : s.outline.Barred → Lone initializer s

section Runs

variable {initializer : Nat → Routine T E} {s : System T E} {threads : Table (Thread T E)}

theorem lone_start (origin : Origin T)
    (hthreads : ∀ t, (threads.get t).frames = [] ∧ ∀ c ∈ (threads.get t).calls, c.Keeps) :
    Lone initializer (origin.system threads : System T E) := by
  have hnone : ∀ t, ∀ f, f ∉ (threads.get t).frames := fun t f hf => by
    rw [(hthreads t).1] at hf
    cases hf
  cases origin with
  | initializer =>
    exact .live (inv_start hthreads) (fun t f hf => (hnone t f (List.mem_of_mem_tail hf)).elim)
      Nat.one_pos
  | value v =>
    exact .live (inv_start hthreads) (fun t f hf => (hnone t f (List.mem_of_mem_tail hf)).elim)
      Nat.one_pos
  | cancelled =>
    exact .barred ⟨rfl, rfl, rfl, fun t => (hthreads t).2, fun t f hf => (hnone t f hf).elim⟩

theorem Lone.step (h : Lone initializer s)
    (hduring : ∀ run, ∀ c ∈ (initializer run).during, c.Keeps) (turn : Turn) :
    Lone initializer (s.step initializer turn) := by
  cases h with
  | live hinv hnested hinstalled =>
    exact .live (inv_step hinv hduring turn) (hnested.move (hinv.moves turn))
      (Nat.lt_of_lt_of_le hinstalled (s.installed_le_step turn))
  | barred hbarred => exact .barred (hbarred.step turn)

theorem Lone.run (h : Lone initializer s)
    (hduring : ∀ run, ∀ c ∈ (initializer run).during, c.Keeps) (schedule : List Turn) :
    Lone initializer (s.run initializer schedule) := by
  induction schedule generalizing s with
  | nil => exact h
  | cons turn schedule ih => exact ih (h.step hduring turn)

end Runs

end SharedCells.Lazy
