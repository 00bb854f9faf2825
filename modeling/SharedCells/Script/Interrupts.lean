import SharedCells.Interrupt
import SharedCells.Script.Run
import SharedCells.Text.Describe

/-!
# Scripts over interrupted threads

Such a script has a number of workers, each with a handle through which others interrupt it.

* `InterruptScript.run` answers a script: for each request the answer, and for each worker
  whether it was interrupted.
-/

namespace SharedCells.Script

inductive InterruptRequest where
  | interrupt
  | interruptSelf
  /-- The worker asks for its status. -/
  | isInterrupted
  /-- The worker asks for its status and lowers it. -/
  | interrupted
  /-- The worker parks until it is interrupted, and lowers its status. -/
  | park
  /-- Whether the handle belongs to the worker. -/
  | sameThread
  | debug

/-- The answer to such a request. -/
inductive InterruptAnswer where
  | done
  | flag (b : Bool)
  | text (s : String)

/-- The text of the handle of a thread with some status; the thread is not told. -/
def describeHandle (s : Status) : String :=
  Text.record "Interrupter"
    [("thread", Text.wrapped "ThreadId" "_"), ("interrupted", Text.describe s.interrupted)]

namespace InterruptScript

/-- The status of a worker after it has parked until it was interrupted. Somebody interrupts it
unless that was done before. -/
def parked (s : Status) : Status := if s.interrupted then s else s.interrupt

/-- What a request does to the worker. -/
def act (s : Status) : InterruptRequest → InterruptAnswer × Status
  | .interrupt | .interruptSelf => (.done, s.interrupt)
  | .isInterrupted => (.flag s.interrupted, s)
  | .interrupted => (.flag s.clear.1, s.clear.2)
  | .park => (.flag (parked s).clear.1, (parked s).clear.2)
  | .sameThread => (.flag true, s)
  | .debug => (.text (describeHandle s), s)

/-- Answers one request to a worker. -/
def step (workers : List Status) (request : Nat × InterruptRequest) :
    Option ((InterruptAnswer × List Bool) × List Status) :=
  workers[request.1]?.map fun s =>
    let (answer, s) := act s request.2
    let workers := workers.set request.1 s
    ((answer, workers.map Status.interrupted), workers)

/-- Answers a script with a number of workers. -/
def run (workers : Nat) (requests : List (Nat × InterruptRequest)) :
    Option (List (InterruptAnswer × List Bool)) :=
  runAll step (List.replicate workers {}) requests

end InterruptScript

end SharedCells.Script
