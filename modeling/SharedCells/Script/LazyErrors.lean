import SharedCells.Lazy.Outcome

/-!
# Scripted failures

The initializers of a script fail with a `Failure`, which carries a text. A script may also make
errors on its own, to see how they are worded and what their copies share.

* `makeErrors` makes errors one after another, each with an allocation of its own.
-/

namespace SharedCells.Script

open Lazy

/-- The error of an initializer of a script. -/
structure Failure where
  text : String
deriving DecidableEq

instance : Text.Display Failure := ⟨fun e => "fail: " ++ e.text⟩

instance : Text.Describe Failure := ⟨fun e => Text.wrapped "Fail" (Text.describe e.text)⟩

/-- An error as an answer shows it, with the number of its allocation. -/
structure Reported where
  error : LazyError Failure
  /-- The number of the allocation that it shares with its copies. -/
  id? : Option Nat

/-- An error that a script asks for. -/
inductive ErrorRequest where
  | initialization (text : String)
  | panicked (text : String)
  | interrupted
  | cancelled

/-- The error with its text in an allocation with the given address. -/
def ErrorRequest.error (address : Nat) : ErrorRequest → LazyError Failure
  | initialization text => .initialization ⟨address, ⟨text⟩⟩
  | panicked text => .panicked ⟨address, text⟩
  | interrupted => .interrupted
  | cancelled => .cancelled

/-- Makes errors; those made so far have taken the addresses below the given one. -/
def makeErrors (address : Nat) : List ErrorRequest → List Reported
  | [] => []
  | request :: requests =>
    let error := request.error address
    let id? := error.address?
    ⟨error, id?⟩ :: makeErrors (if id?.isSome then address + 1 else address) requests

end SharedCells.Script
