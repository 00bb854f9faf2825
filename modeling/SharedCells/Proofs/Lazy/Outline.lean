import SharedCells.Proofs.Lazy.Lineage

/-!
# Outlines

An `Outline` is what of a reference with one holder decides about its outcome: whether the holder
is claimed and what it holds, how far the threads have come, and what was answered. The waiters,
the permits and the gates are left out: they only decide who moves.

The lemmas say what the parts of a step do to the outline.
-/

namespace SharedCells.Lazy

variable {T E : Type}

/-- What decides about the outcome of a reference with one holder. -/
structure Outline (T E : Type) where
  current : Nat
  /-- What the first holder is about. -/
  phase : Phase
  /-- The outcome of the first holder, once it is published. -/
  outcome : Option (Outcome T E)
  /-- Whether the initializer is still there to be run. -/
  armed : Bool
  /-- The holder of every run of the initializer. -/
  runs : List Nat
  log : List (Reply T E)
  /-- The calls of every thread that have begun. -/
  frames : Nat → List (Frame T E)
  /-- The calls that every thread will make after that. -/
  calls : Nat → List Call

def System.outline (s : System T E) : Outline T E where
  current := s.current
  phase := (s.holder 0).phase
  outcome := (s.holder 0).outcome
  armed := (s.holder 0).armed
  runs := s.runs
  log := s.log
  frames t := (s.thread t).frames
  calls t := (s.thread t).calls

namespace Outline

/-- The outline with other calls of a thread begun. -/
def put (o : Outline T E) (t : Nat) (frames : List (Frame T E)) : Outline T E :=
  { o with frames := Function.update o.frames t frames }

/-- The outline with one more call that has ended. -/
def append (o : Outline T E) (r : Reply T E) : Outline T E := { o with log := o.log ++ [r] }

/-- The outline after the innermost call of a thread ended. -/
def reply (o : Outline T E) (t : Nat) (rest : List (Frame T E)) (call : Call) (a : Answer T E) :
    Outline T E :=
  match callerOf t rest with
  | none => o.put t rest
  | some caller => (o.put t rest).append ⟨caller, call, a⟩

/-- The end of a call only adds to the log. -/
theorem reply_eq (o : Outline T E) (t : Nat) (rest : List (Frame T E)) (call : Call)
    (a : Answer T E) :
    ∃ log, o.reply t rest call a = { o.put t rest with log := o.log ++ log } ∧
      ∀ r ∈ log, r.call = call ∧ r.answer = a := by
  unfold reply
  split
  · exact ⟨[], by rw [List.append_nil]; rfl, fun r hr => nomatch hr⟩
  · rename_i caller _
    refine ⟨[⟨caller, call, a⟩], rfl, fun r hr => ?_⟩
    rw [List.mem_singleton.1 hr]
    exact ⟨rfl, rfl⟩

end Outline

/-- What a lineage shows of its first holder. -/
def Lineage.outline (l : Lineage T E) : Outline T E where
  current := l.current
  phase := (l.holders 0).phase
  outcome := (l.holders 0).outcome
  armed := (l.holders 0).armed
  runs := l.runs
  log := l.log
  frames := l.frames
  calls := l.calls

theorem Lineage.outline_reply (l : Lineage T E) (t : Nat) (rest : List (Frame T E)) (call : Call)
    (a : Answer T E) : (l.reply t rest call a).outline = l.outline.reply t rest call a := by
  unfold Lineage.reply Outline.reply
  cases callerOf t rest <;> rfl

namespace System

variable (s : System T E) {t : Nat} {call : Call} {stage : Stage T E} {rest : List (Frame T E)}

theorem outline_goTo (hf : (s.thread t).frames = ⟨call, stage⟩ :: rest) (stage' : Stage T E) :
    (s.goTo t stage').outline = s.outline.put t (⟨call, stage'⟩ :: rest) :=
  congrArg Lineage.outline (s.lineage_goTo hf stage')

theorem outline_answer (hf : (s.thread t).frames = ⟨call, stage⟩ :: rest) (a : Answer T E) :
    (s.answer t a).outline = s.outline.reply t rest call a :=
  (congrArg Lineage.outline (s.lineage_answer hf a)).trans (Lineage.outline_reply ..)

theorem outline_updateStatus (u : Nat) (f : Status → Status) :
    (s.updateStatus u f).outline = s.outline :=
  congrArg Lineage.outline (s.lineage_updateStatus u f)

theorem outline_updateHolder (f : Holder T E → Holder T E) :
    (s.updateHolder 0 f).outline =
      { s.outline with
        phase := (f (s.holder 0)).phase
        outcome := (f (s.holder 0)).outcome
        armed := (f (s.holder 0)).armed } := by
  have hset := congrArg Lineage.outline (s.lineage_updateHolder 0 f)
  simp only [Lineage.outline, Lineage.holders_set_self] at hset
  exact hset

theorem outline_goTo_updateHolder (hf : (s.thread t).frames = ⟨call, stage⟩ :: rest)
    (f : Holder T E → Holder T E) (stage' : Stage T E) :
    ((s.updateHolder 0 f).goTo t stage').outline =
      { s.outline.put t (⟨call, stage'⟩ :: rest) with
        phase := (f (s.holder 0)).phase
        outcome := (f (s.holder 0)).outcome
        armed := (f (s.holder 0)).armed } := by
  have hgoTo := (s.updateHolder 0 f).outline_goTo hf stage'
  rw [outline_updateHolder] at hgoTo
  exact hgoTo

theorem outline_enter :
    (s.enter 0).2.outline = { s.outline with armed := false, runs := s.runs ++ [0] } := by
  have harmed := s.outline_updateHolder fun holder => { holder with armed := false }
  exact congrArg (fun o : Outline T E => { o with runs := s.runs ++ [0] }) harmed

theorem outline_begin_goTo (hf : (s.thread t).frames = ⟨call, stage⟩ :: rest)
    (stage' : Stage T E) (c : Call) :
    ((s.goTo t stage').begin t c).outline =
      s.outline.put t (⟨c, .start⟩ :: ⟨call, stage'⟩ :: rest) :=
  congrArg Lineage.outline (s.lineage_begin_goTo hf stage' c)

theorem outline_begin_next (t : Nat) (call : Call) (calls : List Call)
    (hf : (s.thread t).frames = []) :
    ((s.updateThread t fun thread => { thread with calls }).begin t call).outline =
      { s.outline.put t [⟨call, .start⟩] with
        calls := Function.update s.outline.calls t calls } :=
  congrArg Lineage.outline (s.lineage_begin_next t call calls hf)

theorem outline_updateWaiters (f : Holder T E → List Nat) :
    (s.updateHolder 0 fun holder => { holder with waiters := f holder }).outline = s.outline :=
  congrArg Lineage.outline (s.lineage_updateWaiters 0 f)

end System

end SharedCells.Lazy
