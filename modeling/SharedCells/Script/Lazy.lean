import SharedCells.Lazy.Settle
import SharedCells.Panic
import SharedCells.Script.LazyErrors
import SharedCells.Script.Run

/-!
# Scripts over a lazy reference

The main thread of such a script makes calls on one reference, starts other threads and joins
them. After each request all threads settle, so that a request finds every other thread at rest.
Run number `n` of the initializer does what entry `n` of a list says, or the last one.

Answers number the allocations that callers share in the order in which they are first shown.

* `LazyScript.run` answers a script.
-/

namespace SharedCells.Script

open Lazy

inductive ReferenceSort where
  /-- It is computed once, and its value stays inside. -/
  | once
  /-- It can be reset and cancelled, and callers share its values. -/
  | resettable
deriving DecidableEq

/-- A call as a script names it. -/
inductive CallName where
  | get
  | getInterruptibly
  /-- To get the value or to panic. -/
  | force
  | reset
  | cancel
  | tryGet
  | isInitialized
  | isFailed
  | isCancelled
  | generation
  | debug
  | display
  | interruptSelf
  | isInterrupted
  | interrupted
  | intoInner

/-- The call that a name stands for. -/
def CallName.call (sort : ReferenceSort) : CallName → Call
  | get | force => .get ⟨false, decide (sort = .resettable)⟩
  | getInterruptibly => .get ⟨true, decide (sort = .resettable)⟩
  | reset => .reset
  | cancel => .cancel
  | tryGet => .tryGet
  | isInitialized => .isInitialized
  | isFailed => .isFailed
  | isCancelled => .isCancelled
  | generation => .generation
  | debug | display => .inspect
  | interruptSelf => .interruptSelf
  | isInterrupted => .isInterrupted
  | interrupted => .interrupted
  | intoInner => .intoInner

/-- How the answer to a call is shown. -/
inductive Manner where
  | plain
  /-- As a value alone or as a panic. -/
  | forced
  /-- As a text for use in other texts. -/
  | displayed

/-- How the answer to a call is shown. -/
def CallName.manner : CallName → Manner
  | force => .forced
  | display => .displayed
  | _ => .plain

/-- What one run of the initializer does. -/
structure ScriptedRun (T : Type) where
  /-- The calls that it makes first, if its answers are asked for. -/
  during? : Option (List CallName)
  /-- The gate that it then waits for. -/
  gate : Option String
  ending : Ending T Failure

/-- How a script makes its reference. -/
inductive ReferenceMaking (T : Type) where
  /-- With an initializer that follows the script. -/
  | scripted
  | value (v : T)
  /-- With an initializer that gives a default value. -/
  | default

/-- A request to the main thread. -/
inductive LazyRequest where
  | call (asked : CallName)
  /-- How often the initializer was run. -/
  | calls
  /-- To let the other threads settle. -/
  | settle
  | spawn (name : String) (calls : List CallName)
  /-- To wait until the initializer was run so often. -/
  | started (runs : Nat)
  | opens (gate : String)
  | interrupt (name : String)
  | join (name : String)

inductive LazyAnswer (T : Type) where
  | done
  | absent
  | flag (b : Bool)
  | count (n : Nat)
  | text (s : String)
  /-- A value that a caller borrows. -/
  | borrowed (v : T)
  /-- A successful outcome, with the number of its allocation if callers share it. -/
  | value (v : T) (id? : Option Nat)
  | failed (e : Reported)
  | panicked (p : Panic)

inductive LazyResult (T : Type) where
  | single (a : LazyAnswer T)
  | joined (answers : List (LazyAnswer T)) (interrupted : Bool)

structure LazyAnswers (T : Type) where
  results : List (LazyResult T)
  /-- How often the initializer was run. -/
  runs : Nat
  /-- The answers to the calls of each run that was asked for them and has made them all. -/
  during : List (Nat × List (LazyAnswer T))

/-- The text of a reference that is computed once. -/
def describeOnce {T : Type} [Text.Describe T] (i : Inspection T) : String :=
  Text.wrapped "LazyRef" <|
    match i.value? with
    | some v => Text.describe v.value
    | none => if i.failed then "<failed>" else "<uninit>"

/-- The text of a reference that is computed once, for use in other texts. -/
def displayOnce {T : Type} [Text.Display T] (i : Inspection T) : String :=
  match i.value? with
  | some v => Text.display v.value
  | none => if i.failed then "<failed>" else "<uninit>"

/-- The text of a reference that can be reset. -/
def describeResettable {T : Type} [Text.Describe T] (i : Inspection T) : String :=
  let value := match i.value? with
    | some v => Text.describe v.value
    | none =>
      if i.cancelled then "<cancelled>" else if i.failed then "<failed>" else "<uninit>"
  Text.record "ResettableLazyRef" [("generation", Text.describe i.generation), ("value", value)]

/-- The addresses of the allocations shown so far, in the order in which they were shown. -/
abbrev Shown := List Nat

/-- The number of an allocation, and the allocations shown afterwards. -/
def Shown.number (shown : Shown) (address : Nat) : Nat × Shown :=
  match shown.idxOf? address with
  | some n => (n, shown)
  | none => (shown.length, shown ++ [address])

structure LazyScript (T : Type) where
  /-- The reference with its threads; the main thread is the first one. -/
  system : System T Failure
  /-- The names of the other threads. -/
  names : List String
  /-- How the answers to the calls of each thread are shown. -/
  manners : Table (List Manner)
  /-- The answers to the calls that have ended, in the order in which they did. -/
  answers : List (Caller × LazyAnswer T)
  shown : Shown

namespace LazyScript

variable {T : Type} [Text.Describe T] [Text.Display T] [Inhabited T]

/-- More laps than threads need to settle. -/
def patience : Nat := 1000000

/-- What a run does: what its entry in the list says, or the last one. -/
def scripted? (runs : List (ScriptedRun T)) (run : Nat) : Option (ScriptedRun T) :=
  runs[min run runs.length - 1]?

/-- The initializer that a list of runs describes; without a run it gives a default value. -/
def initializer (sort : ReferenceSort) (runs : List (ScriptedRun T)) (run : Nat) :
    Routine T Failure :=
  match scripted? runs run with
  | some r => ⟨(r.during?.getD []).map (CallName.call sort), r.gate, r.ending⟩
  | none => ⟨[], none, .value default⟩

def report (st : LazyScript T) (error : LazyError Failure) : Reported × LazyScript T :=
  match error.address? with
  | none => (⟨error, none⟩, st)
  | some address =>
    let (n, shown) := st.shown.number address
    (⟨error, some n⟩, { st with shown })

def showValue (st : LazyScript T) (sort : ReferenceSort) (v : Shared T) :
    LazyAnswer T × LazyScript T :=
  match sort with
  | .once => (.value v.value none, st)
  | .resettable =>
    let (n, shown) := st.shown.number v.address
    (.value v.value (some n), { st with shown })

/-- Shows the answer to a call. -/
def showAnswer (st : LazyScript T) (sort : ReferenceSort) :
    Manner → Answer T Failure → LazyAnswer T × LazyScript T
  | .forced, .outcome (.ok v) => (.borrowed v.value, st)
  | .forced, .outcome (.error e) => (.panicked ⟨e.message⟩, st)
  | _, .outcome (.ok v) => st.showValue sort v
  | _, .outcome (.error e) =>
    let (r, st) := st.report e
    (.failed r, st)
  | _, .value none => (.absent, st)
  | _, .value (some v) =>
    if sort = .resettable then st.showValue sort v else (.borrowed v.value, st)
  | _, .flag b => (.flag b, st)
  | _, .count n => (.count n, st)
  | .displayed, .view i => (.text (displayOnce i), st)
  | _, .view i =>
    (.text (if sort = .resettable then describeResettable i else describeOnce i), st)
  | _, .retired | _, .done => (.done, st)

/-- The answers to the calls of one caller, the first one first. -/
def answersTo (st : LazyScript T) (caller : Caller) : List (LazyAnswer T) :=
  st.answers.filterMap fun (c, a) => if c = caller then some a else none

/-- How the answers to the calls of a caller are shown. -/
def mannersOf (runs : List (ScriptedRun T)) (st : LazyScript T) : Caller → List Manner
  | .thread t => st.manners.get t
  | .run n => (((scripted? runs n).bind ScriptedRun.during?).getD []).map CallName.manner

/-- Shows the answer to a call that has ended. -/
def hear (sort : ReferenceSort) (runs : List (ScriptedRun T)) (st : LazyScript T)
    (r : Reply T Failure) : LazyScript T :=
  let manner := (mannersOf runs st r.caller)[(st.answersTo r.caller).length]?.getD .plain
  let (shown, st) := st.showAnswer sort manner r.answer
  { st with answers := st.answers ++ [(r.caller, shown)] }

/-- Lets all threads settle, and shows the answers to the calls that have ended meanwhile. -/
def settle (sort : ReferenceSort) (runs : List (ScriptedRun T)) (st : LazyScript T) :
    LazyScript T :=
  let system := st.system.settle (initializer sort runs) (st.names.length + 1) patience
  (system.log.drop st.answers.length).foldl (hear sort runs) { st with system }

/-- The number of a thread with a name; the last one that got it counts. -/
def thread? (st : LazyScript T) (name : String) : Option Nat :=
  (st.names.mapIdx fun i n => (n, i + 1)).reverse.lookup name

/-- Lets a thread make calls after those that it was asked to make before. -/
def ask (st : LazyScript T) (t : Nat) (calls : List (Call × Manner)) : LazyScript T :=
  { st with
    system := st.system.updateThread t fun thread =>
      { thread with calls := thread.calls ++ calls.map Prod.fst }
    manners := st.manners.update t (· ++ calls.map Prod.snd) }

/-- Lets the main thread make a call, and gives the answer. -/
def callMain (sort : ReferenceSort) (runs : List (ScriptedRun T)) (st : LazyScript T)
    (call : Call) (manner : Manner) : Option (LazyResult T × LazyScript T) :=
  let answered := (st.answersTo (.thread 0)).length
  let st := (st.ask 0 [(call, manner)]).settle sort runs
  (st.answersTo (.thread 0))[answered]?.map fun a => (.single a, st)

/-- How often the initializer of the script was run; the one that gives a default value is not
of the script. -/
def countedRuns (making : ReferenceMaking T) (st : LazyScript T) : Nat :=
  match making with
  | .default => 0
  | _ => st.system.runs.length

def step (sort : ReferenceSort) (making : ReferenceMaking T) (runs : List (ScriptedRun T))
    (st : LazyScript T) : LazyRequest → Option (LazyResult T × LazyScript T)
  | .call asked => callMain sort runs st (asked.call sort) asked.manner
  | .calls => some (.single (.count (countedRuns making st)), st)
  | .settle => some (.single .done, st)
  | .spawn name calls =>
    let st := { st with names := st.names ++ [name] }
    let st := st.ask st.names.length (calls.map fun c => (c.call sort, c.manner))
    some (.single .done, st.settle sort runs)
  | .started n => if n ≤ countedRuns making st then some (.single .done, st) else none
  | .opens gate =>
    some (.single .done,
      { st with system := st.system.step (initializer sort runs) (.opens gate) }.settle sort runs)
  | .interrupt name => do callMain sort runs st (.interrupt (← st.thread? name)) .plain
  | .join name => do
    let t ← st.thread? name
    if st.system.isIdle t then
      let interrupted := (st.system.thread t).status.interrupted
      some (.joined (st.answersTo (.thread t)) interrupted, st)
    else none

/-- The reference as a script makes it. -/
def made : ReferenceMaking T → System T Failure
  | .scripted | .default => .new .fresh
  | .value v => .withValue v

/-- The runs that a reference follows; one with a default value needs none. -/
def followed (runs : List (ScriptedRun T)) : ReferenceMaking T → List (ScriptedRun T)
  | .default => []
  | _ => runs

/-- The answers to the calls of each run that was asked for them and has made them all. -/
def heardRuns (runs : List (ScriptedRun T)) (st : LazyScript T) :
    List (Nat × List (LazyAnswer T)) :=
  (List.range st.system.runs.length).filterMap fun i => do
    let calls ← (← scripted? runs (i + 1)).during?
    let answers := st.answersTo (.run (i + 1))
    if answers.length = calls.length then some (i + 1, answers) else none

def run (sort : ReferenceSort) (making : ReferenceMaking T) (runs : List (ScriptedRun T))
    (requests : List LazyRequest) : Option (LazyAnswers T) := do
  let runs := followed runs making
  let st : LazyScript T := ⟨made making, [], .of [], [], []⟩
  let (results, st) ← runThrough (step sort making runs) st requests
  some ⟨results, countedRuns making st, heardRuns runs st⟩

end LazyScript

end SharedCells.Script
