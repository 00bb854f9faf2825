import Mathlib.Data.List.Basic
import Mathlib.Logic.Function.Basic
import SharedCells.Lazy.Step

/-!
# Lineages

A `Lineage` is what of a reference decides about its outcomes: the holders that it ever had, which
of them is current, how far the threads have come, and what was answered. The waiters, the permits
and the gates are left out: they only decide who moves.

The lemmas say what the parts of a step do to the lineage.
-/

namespace SharedCells.Lazy

deriving instance DecidableEq for Answer, Reply, After, Stage, Frame

variable {T E : Type}

/-- The calls that begin with a look at the current holder. -/
def Call.Looks : Call → Prop
  | get _ | tryGet | isInitialized | isFailed | isCancelled | inspect => True
  | _ => False

/-- What an ending leaves in an allocation: the value, or a failure with the error for its cause or
with the message of the panic. -/
inductive Ending.Leaves (address : Nat) : Ending T E → Outcome T E → Prop
  | value {v : T} : Leaves address (.value v) (.ok ⟨address, v⟩)
  | error {e : E} : Leaves address (.error e) (.error (.initialization ⟨address, e⟩))
  | panic {p : Payload} : Leaves address (.panic p) (.error (.panicked ⟨address, p.message⟩))

theorem Ending.leaves_outcome (ending : Ending T E) (address : Nat) :
    ending.Leaves address (ending.outcome address) := by
  cases ending <;> constructor

/-- A holder without its waiters. -/
def Holder.bare (h : Holder T E) : Holder T E := { h with waiters := [] }

/-- What decides about the outcomes of a reference. -/
structure Lineage (T E : Type) where
  /-- All holders, without their waiters. -/
  holders : Nat → Holder T E
  installed : Nat
  current : Nat
  generation : Nat
  /-- The holder of every run of the initializer. -/
  runs : List Nat
  allocations : Nat
  log : List (Reply T E)
  /-- The calls of every thread that have begun. -/
  frames : Nat → List (Frame T E)
  /-- The calls that every thread will make after that. -/
  calls : Nat → List Call

def System.lineage (s : System T E) : Lineage T E where
  holders h := (s.holder h).bare
  installed := s.installed
  current := s.current
  generation := s.generation
  runs := s.runs
  allocations := s.allocations
  log := s.log
  frames t := (s.thread t).frames
  calls t := (s.thread t).calls

/-- A reference before its first call: its value is there from the start, or its initializer. -/
def System.start (source : Option T) (threads : Table (Thread T E)) : System T E :=
  match source with
  | none => { System.new .fresh with threads }
  | some v => { System.withValue v with threads }

/-- Who made the call above some frames of a thread. -/
def callerOf (t : Nat) : List (Frame T E) → Option Caller
  | [] => some (.thread t)
  | ⟨_, .running _ _ run _⟩ :: _ => some (.run run)
  | _ => none

namespace Lineage

def put (l : Lineage T E) (t : Nat) (frames : List (Frame T E)) : Lineage T E :=
  { l with frames := Function.update l.frames t frames }

def set (l : Lineage T E) (h : Nat) (holder : Holder T E) : Lineage T E :=
  { l with holders := Function.update l.holders h holder }

def install (l : Lineage T E) (holder : Holder T E) : Lineage T E :=
  { l.set l.installed holder with
    current := l.installed
    installed := l.installed + 1 }

/-- The lineage after a holder gave its initializer away for a run. -/
def enter (l : Lineage T E) (h : Nat) : Lineage T E :=
  { l.set h { l.holders h with armed := false } with runs := l.runs ++ [h] }

def allocate (l : Lineage T E) : Lineage T E := { l with allocations := l.allocations + 1 }

def append (l : Lineage T E) (r : Reply T E) : Lineage T E := { l with log := l.log ++ [r] }

/-- The lineage after the innermost call of a thread ended. -/
def reply (l : Lineage T E) (t : Nat) (rest : List (Frame T E)) (call : Call) (a : Answer T E) :
    Lineage T E :=
  match callerOf t rest with
  | none => l.put t rest
  | some caller => (l.put t rest).append ⟨caller, call, a⟩

theorem put_put (l : Lineage T E) (t : Nat) (frames frames' : List (Frame T E)) :
    (l.put t frames).put t frames' = l.put t frames' := by
  rw [put, put, put, Function.update_idem]

@[simp] theorem frames_put_self (l : Lineage T E) (t : Nat) (frames : List (Frame T E)) :
    (l.put t frames).frames t = frames :=
  Function.update_self ..

theorem frames_of_put {l l' : Lineage T E} {t : Nat} {frames : List (Frame T E)}
    (hput : l' = l.put t frames) : l'.frames t = frames := by
  rw [hput, frames_put_self]

theorem set_set (l : Lineage T E) (h : Nat) (holder holder' : Holder T E) :
    (l.set h holder).set h holder' = l.set h holder' := by
  rw [set, set, set, Function.update_idem]

@[simp] theorem holders_set_self (l : Lineage T E) (h : Nat) (holder : Holder T E) :
    (l.set h holder).holders h = holder :=
  Function.update_self ..

theorem holders_set_of_ne (l : Lineage T E) {h h' : Nat} (holder : Holder T E) (hne : h' ≠ h) :
    (l.set h holder).holders h' = l.holders h' :=
  Function.update_of_ne hne ..

/-- The end of a call only adds to the log. -/
theorem reply_eq (l : Lineage T E) (t : Nat) (rest : List (Frame T E)) (call : Call)
    (a : Answer T E) :
    ∃ log, l.reply t rest call a = { l.put t rest with log := l.log ++ log } ∧
      ∀ r ∈ log, r.call = call ∧ r.answer = a := by
  unfold reply
  split
  · exact ⟨[], by rw [List.append_nil]; rfl, fun r hr => nomatch hr⟩
  · rename_i caller _
    refine ⟨[⟨caller, call, a⟩], rfl, fun r hr => ?_⟩
    rw [List.mem_singleton.1 hr]
    exact ⟨rfl, rfl⟩

end Lineage

namespace System

variable (s : System T E) {t : Nat} {call : Call} {stage : Stage T E} {rest : List (Frame T E)}

theorem run_append {initializer : Nat → Routine T E} (turns more : List Turn) :
    s.run initializer (turns ++ more) = (s.run initializer turns).run initializer more :=
  List.foldl_append ..

/-! ## Threads -/

theorem lineage_updateThread (t : Nat) (f : Thread T E → Thread T E) :
    (s.updateThread t f).lineage =
      { s.lineage.put t (f (s.thread t)).frames with
        calls := Function.update s.lineage.calls t (f (s.thread t)).calls } := by
  have hframes : (fun u => ((s.updateThread t f).thread u).frames) =
      Function.update s.lineage.frames t (f (s.thread t)).frames := by
    funext u
    by_cases hu : u = t
    · subst hu
      simp [updateThread, thread]
    · simp [updateThread, thread, lineage, hu]
  have hcalls : (fun u => ((s.updateThread t f).thread u).calls) =
      Function.update s.lineage.calls t (f (s.thread t)).calls := by
    funext u
    by_cases hu : u = t
    · subst hu
      simp [updateThread, thread]
    · simp [updateThread, thread, lineage, hu]
  simp only [Lineage.put, ← hframes, ← hcalls]
  rfl

theorem lineage_updateFrames (t : Nat) (f : Thread T E → Thread T E)
    (hcalls : (f (s.thread t)).calls = s.lineage.calls t) :
    (s.updateThread t f).lineage = s.lineage.put t (f (s.thread t)).frames := by
  rw [lineage_updateThread, hcalls, Function.update_eq_self]
  rfl

theorem lineage_goTo (hf : (s.thread t).frames = ⟨call, stage⟩ :: rest) (stage' : Stage T E) :
    (s.goTo t stage').lineage = s.lineage.put t (⟨call, stage'⟩ :: rest) := by
  rw [goTo, lineage_updateFrames s t _ rfl, hf]
  rfl

theorem frames_goTo (hf : (s.thread t).frames = ⟨call, stage⟩ :: rest) (stage' : Stage T E) :
    ((s.goTo t stage').thread t).frames = ⟨call, stage'⟩ :: rest :=
  Lineage.frames_of_put (s.lineage_goTo hf stage')

theorem lineage_begin (t : Nat) (call : Call) :
    (s.begin t call).lineage = s.lineage.put t (⟨call, .start⟩ :: (s.thread t).frames) := by
  rw [begin, lineage_updateFrames s t _ rfl]

theorem lineage_begin_goTo (hf : (s.thread t).frames = ⟨call, stage⟩ :: rest)
    (stage' : Stage T E) (c : Call) :
    ((s.goTo t stage').begin t c).lineage =
      s.lineage.put t (⟨c, .start⟩ :: ⟨call, stage'⟩ :: rest) := by
  rw [lineage_begin, lineage_goTo s hf, s.frames_goTo hf, Lineage.put_put]

theorem lineage_begin_next (t : Nat) (call : Call) (calls : List Call)
    (hf : (s.thread t).frames = []) :
    ((s.updateThread t fun thread => { thread with calls }).begin t call).lineage =
      { s.lineage.put t [⟨call, .start⟩] with
        calls := Function.update s.lineage.calls t calls } := by
  have hnext := s.lineage_updateThread t fun thread => { thread with calls }
  have hframes : ((s.updateThread t fun thread => { thread with calls }).thread t).frames = [] :=
    (congrFun (congrArg Lineage.frames hnext) t).trans ((Function.update_self ..).trans hf)
  rw [lineage_begin, hnext, hframes]
  simp only [Lineage.put, Function.update_idem]

theorem lineage_answer (hf : (s.thread t).frames = ⟨call, stage⟩ :: rest) (a : Answer T E) :
    (s.answer t a).lineage = s.lineage.reply t rest call a := by
  have hpop := lineage_updateFrames s t (fun thread => { thread with frames := rest }) rfl
  rw [answer, hf]
  cases rest with
  | nil => exact congrArg (Lineage.append · (Reply.mk (.thread t) call a)) hpop
  | cons frame rest =>
    obtain ⟨outer, stage⟩ := frame
    cases stage
    case running h purpose run calls =>
      exact congrArg (Lineage.append · (Reply.mk (.run run) call a)) hpop
    all_goals exact hpop

theorem lineage_updateStatus (u : Nat) (f : Status → Status) :
    (s.updateStatus u f).lineage = s.lineage := by
  rw [updateStatus, lineage_updateFrames s u _ rfl]
  exact congrArg (fun frames => { s.lineage with frames }) (Function.update_eq_self u _)

/-! ## Holders -/

theorem holder_updateHolder (h h' : Nat) (f : Holder T E → Holder T E) :
    (s.updateHolder h f).holder h' = if h' = h then f (s.holder h) else s.holder h' :=
  Table.get_update ..

theorem lineage_updateHolder (h : Nat) (f : Holder T E → Holder T E) :
    (s.updateHolder h f).lineage = s.lineage.set h (f (s.holder h)).bare := by
  have hholders : (fun h' => ((s.updateHolder h f).holder h').bare) =
      Function.update s.lineage.holders h (f (s.holder h)).bare := by
    funext h'
    rw [holder_updateHolder]
    by_cases hh : h' = h
    · subst hh
      simp
    · simp [lineage, hh]
  simp only [Lineage.set, ← hholders]
  rfl

theorem lineage_updateWaiters (h : Nat) (f : Holder T E → List Nat) :
    (s.updateHolder h fun holder => { holder with waiters := f holder }).lineage = s.lineage := by
  rw [lineage_updateHolder]
  exact congrArg (fun holders => { s.lineage with holders }) (Function.update_eq_self h _)

theorem lineage_install (holder : Holder T E) :
    (s.install holder).lineage = s.lineage.install holder.bare := by
  have hholders : (fun h => ((s.install holder).holder h).bare) =
      Function.update s.lineage.holders s.installed holder.bare := by
    funext h
    have hset : (s.install holder).holder h =
        if h = s.installed then holder else s.holder h := Table.get_set ..
    rw [hset]
    by_cases hh : h = s.installed
    · subst hh
      simp
    · simp [lineage, hh]
  simp only [Lineage.install, Lineage.set]
  exact congrArg (fun holders => { s.lineage with
    holders, current := s.installed, installed := s.installed + 1 }) hholders

theorem lineage_enter (h : Nat) : (s.enter h).2.lineage = s.lineage.enter h := by
  have harmed := s.lineage_updateHolder h fun holder => { holder with armed := false }
  exact congrArg (fun l : Lineage T E => { l with runs := s.runs ++ [h] }) harmed

theorem lineage_goTo_updateHolder (hf : (s.thread t).frames = ⟨call, stage⟩ :: rest) (h : Nat)
    (f : Holder T E → Holder T E) (stage' : Stage T E) :
    ((s.updateHolder h f).goTo t stage').lineage =
      (s.lineage.set h (f (s.holder h)).bare).put t (⟨call, stage'⟩ :: rest) := by
  rw [(s.updateHolder h f).lineage_goTo hf, lineage_updateHolder]

end System

end SharedCells.Lazy
