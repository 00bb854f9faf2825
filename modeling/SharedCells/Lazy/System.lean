import SharedCells.Interrupt
import SharedCells.Lazy.Call
import SharedCells.Table

/-!
# A reference and its threads

A `System` is a reference with all holders that it ever had and with the threads that make calls
on it. Each thread is at a `Stage` of its current call, that is, between two accesses to what
the threads share. A run of an initializer may make calls, so a thread has a stack of frames.

* `System.answer` ends a call; the log of the reference tells the answers to all calls that have
  ended, and who made them.
-/

namespace SharedCells.Lazy

inductive Wake where
  /-- The holder is no longer being resolved. -/
  | ready
  | interrupted
  | retired
deriving DecidableEq

/-- What becomes of the outcome of a run. -/
inductive Purpose where
  /-- It is published in the holder. -/
  | publish
  /-- It is given to the caller, who used the reference up. -/
  | consume
deriving DecidableEq

/-- What follows once all waiters of a holder are woken. -/
inductive After (T E : Type) where
  /-- The attempt at a holder ends without an outcome. -/
  | giveUp (h : Nat)
  /-- The call goes on to get the outcome of a holder. -/
  | resolve (h : Nat)
  | answer (a : Answer T E)

/-- How far a call has come. -/
inductive Stage (T E : Type) where
  | start
  /-- It looks at a holder that was current. -/
  | peeking (h : Nat)
  /-- It looks for the outcome of a holder. -/
  | entering (h : Nat)
  /-- It looks whether the holder is retired. -/
  | checking (h : Nat)
  /-- It reads the phase of the holder. -/
  | choosing (h : Nat)
  /-- It claims the holder, if that is still unresolved. -/
  | claiming (h : Nat)
  /-- It holds the claim, and looks again whether the holder is retired. -/
  | rechecking (h : Nat)
  /-- It gives the claim back. -/
  | handingBack (h : Nat)
  /-- It holds the claim, and takes the initializer. -/
  | arming (h : Nat)
  /-- It runs the initializer, which has yet to make some calls. -/
  | running (h : Nat) (purpose : Purpose) (run : Nat) (rest : List Call)
  /-- It puts the outcome into the holder. -/
  | publishing (h : Nat) (o : Outcome T E)
  | completing (h : Nat) (o : Outcome T E)
  /-- It takes the list of waiters. -/
  | draining (h : Nat) (after : After T E)
  /-- It wakes waiters one by one. -/
  | waking (threads : List Nat) (after : After T E)
  /-- It puts itself on the list of waiters. -/
  | registering (h : Nat)
  /-- It waits, and reads the phase. -/
  | watching (h : Nat)
  /-- It waits, and looks whether the holder is retired. -/
  | watchingRetired (h : Nat)
  /-- It waits, and looks whether its thread was interrupted. -/
  | watchingStatus (h : Nat)
  /-- It is parked. -/
  | parked (h : Nat)
  /-- It takes itself off the list of waiters. -/
  | leaving (h : Nat) (wake : Wake)
  /-- It is to replace a holder, and looks whether that is cancelled. -/
  | testing (h : Nat)
  /-- It replaces a holder, if that is still current, or keeps it. -/
  | swapping (h : Nat) (keeps : Bool)
  /-- It has replaced or kept a holder, and looks again whether that is cancelled. -/
  | swapped (h : Nat)
  | counting (h : Nat)
  /-- It marks a holder as retired. -/
  | retiring (h : Nat)
  /-- It has raised the status of a thread, and wakes the thread. -/
  | unparking (thread : Nat)
  /-- It uses up a holder that nobody else can reach. -/
  | consuming (h : Nat)

structure Frame (T E : Type) where
  call : Call
  stage : Stage T E

inductive Caller where
  /-- A thread, on its own account. -/
  | thread (t : Nat)
  | run (n : Nat)
deriving DecidableEq

structure Reply (T E : Type) where
  caller : Caller
  call : Call
  answer : Answer T E

structure Thread (T E : Type) where
  /-- The calls that have begun, the innermost one first. -/
  frames : List (Frame T E)
  /-- The calls that it will make after that. -/
  calls : List Call
  /-- What others told it. -/
  status : Status

/-- A reference with the threads that make calls on it. -/
structure System (T E : Type) where
  holders : Table (Holder T E)
  /-- How many holders were installed so far. -/
  installed : Nat
  current : Nat
  /-- How often the reference was reset. The word that tells it is this number modulo `2 ^ 64`. -/
  generation : Nat
  /-- The holder of every run of the initializer, the first run first. -/
  runs : List Nat
  /-- How many allocations were given out. -/
  allocations : Nat
  opened : List String
  threads : Table (Thread T E)
  /-- The calls that have ended, in the order in which they did. -/
  log : List (Reply T E)

/-- A thread that has nothing to do. -/
def Thread.idle {T E : Type} : Thread T E := ⟨[], [], {}⟩

namespace System

variable {T E : Type}

/-- A reference on which no call was made, with its first holder. -/
def new (first : Holder T E) : System T E where
  holders := Table.set (.of .fresh) 0 first
  installed := 1
  current := 0
  generation := 0
  runs := []
  allocations := 0
  opened := []
  threads := .of .idle
  log := []

/-- A reference that has its value from the start. -/
def withValue (v : T) : System T E := { new (.resolved ⟨0, v⟩) with allocations := 1 }

def holder (s : System T E) (h : Nat) : Holder T E := s.holders.get h

def thread (s : System T E) (t : Nat) : Thread T E := s.threads.get t

/-- The reference with a holder changed. -/
def updateHolder (s : System T E) (h : Nat) (f : Holder T E → Holder T E) : System T E :=
  { s with holders := s.holders.update h f }

/-- The reference with a thread changed. -/
def updateThread (s : System T E) (t : Nat) (f : Thread T E → Thread T E) : System T E :=
  { s with threads := s.threads.update t f }

/-- The reference with the status of a thread changed. -/
def updateStatus (s : System T E) (t : Nat) (f : Status → Status) : System T E :=
  s.updateThread t fun thread => { thread with status := f thread.status }

/-- The reference after the innermost call of a thread came to a stage. -/
def goTo (s : System T E) (t : Nat) (stage : Stage T E) : System T E :=
  s.updateThread t fun thread =>
    { thread with frames := thread.frames.modifyHead fun frame => { frame with stage } }

/-- The reference after a thread began a call. -/
def begin (s : System T E) (t : Nat) (call : Call) : System T E :=
  s.updateThread t fun thread => { thread with frames := ⟨call, .start⟩ :: thread.frames }

/-- The answers to the calls of one caller, the first one first. -/
def answersTo (s : System T E) (caller : Caller) : List (Answer T E) :=
  s.log.filterMap fun r => if r.caller = caller then some r.answer else none

/-- The reference after a call ended with an answer. -/
def note (s : System T E) (caller : Caller) (call : Call) (a : Answer T E) : System T E :=
  { s with log := s.log ++ [⟨caller, call, a⟩] }

/-- The reference after the innermost call of a thread ended. -/
def answer (s : System T E) (t : Nat) (a : Answer T E) : System T E :=
  match (s.thread t).frames with
  | [] => s
  | ⟨call, _⟩ :: frames =>
    let s := s.updateThread t fun thread => { thread with frames }
    match frames with
    | [] => s.note (.thread t) call a
    | ⟨_, .running _ _ run _⟩ :: _ => s.note (.run run) call a
    | _ => s

/-- The reference with one more allocation given out; its address is the number of those given
out before. -/
def allocate (s : System T E) : Nat × System T E :=
  (s.allocations, { s with allocations := s.allocations + 1 })

/-- The reference with a holder installed. -/
def install (s : System T E) (h : Holder T E) : System T E :=
  { s with
    holders := s.holders.set s.installed h
    current := s.installed
    installed := s.installed + 1 }

/-- The number of a new run of the initializer, and the reference after a holder gave its
initializer away for it. -/
def enter (s : System T E) (h : Nat) : Nat × System T E :=
  (s.runs.length + 1,
    { s.updateHolder h fun holder => { holder with armed := false } with runs := s.runs ++ [h] })

end System

end SharedCells.Lazy
