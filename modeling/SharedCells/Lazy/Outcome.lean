import SharedCells.Text.Describe

/-!
# Outcomes of an initializer

An initializer ends with a value, with an error or with a panic. What it leaves is kept in an
allocation of its own, so that whoever gets the outcome later gets the very same value, cause or
message.

* `Ending` is how a run of an initializer ends, and `Outcome` what is kept of it. It is published
  (`Ending.outcome`) or given to a caller who uses the reference up (`Ending.given`).
* `LazyError.message` words an error; its cause is worded by the cause itself.
-/

namespace SharedCells

namespace Text

/-- Values that have a text for use inside other texts. -/
class Display (α : Type) where
  display : α → String

export Display (display)

instance : Display Int64 := ⟨fun n => Int.repr n.toInt⟩

instance : Display String := ⟨id⟩

end Text

namespace Lazy

/-- A value with the identity of the allocation that holds it. -/
structure Shared (α : Type) where
  /-- The identity of the allocation. -/
  address : Nat
  /-- The value that the allocation holds. -/
  value : α
deriving DecidableEq

inductive Payload where
  /-- A text that is part of the program. -/
  | literal (s : String)
  /-- A text that was made on the way. -/
  | owned (s : String)
  | other
deriving DecidableEq

def Payload.message : Payload → String
  | literal s | owned s => s
  | other => "non-string panic payload"

/-- How a run of an initializer ends. -/
inductive Ending (T E : Type) where
  | value (v : T)
  | error (e : E)
  | panic (p : Payload)
deriving DecidableEq

/-- Why a lazy reference gives no value. -/
inductive LazyError (E : Type) where
  /-- The initializer gave back an error. -/
  | initialization (cause : Shared E)
  | panicked (message : Shared String)
  /-- The caller was interrupted while it waited. -/
  | interrupted
  | cancelled
deriving DecidableEq

abbrev Outcome (T E : Type) := Except (LazyError E) (Shared T)

section Ending

variable {T E : Type}

/-- What is published of an ending, in an allocation. -/
def Ending.outcome (address : Nat) : Ending T E → Outcome T E
  | value v => .ok ⟨address, v⟩
  | error e => .error (.initialization ⟨address, e⟩)
  | panic p => .error (.panicked ⟨address, p.message⟩)

/-- What is caught of an ending: a panic, or what the initializer gave back. -/
def Ending.caught : Ending T E → Except Payload (Except E T)
  | value v => .ok (.ok v)
  | error e => .ok (.error e)
  | panic p => .error p

/-- What is given of an ending to a caller who uses the reference up: what the initializer gave
back is passed on, with the error wrapped, if it gave back anything. -/
def Ending.given (address : Nat) (ending : Ending T E) : Outcome T E :=
  match ending.caught with
  | .ok result =>
    (result.map (Shared.mk address)).mapError fun e => .initialization ⟨address, e⟩
  | .error p => .error (.panicked ⟨address, p.message⟩)

/-- A caller is given what would have been published. -/
@[simp] theorem Ending.given_eq_outcome (address : Nat) (ending : Ending T E) :
    ending.given address = ending.outcome address := by
  cases ending <;> rfl

end Ending

namespace LazyError

variable {E : Type}

/-- The cause of a failed initialization. -/
def cause? : LazyError E → Option (Shared E)
  | initialization cause => some cause
  | _ => none

/-- The allocation that an error shares with its copies. -/
def address? : LazyError E → Option Nat
  | initialization cause => some cause.address
  | panicked message => some message.address
  | interrupted | cancelled => none

/-- Whether the initializer failed, by an error or by a panic. -/
def isInitializationFailure : LazyError E → Bool
  | initialization _ | panicked _ => true
  | interrupted | cancelled => false

/-- Whether the error reports an interrupted wait. -/
def isInterrupted : LazyError E → Bool
  | interrupted => true
  | _ => false

/-- Whether the error reports a cancelled reference. -/
def isCancelled : LazyError E → Bool
  | cancelled => true
  | _ => false

/-- The words for a panic of the initializer. -/
def panickedMessage (message : String) : String := "lazy initializer panicked: " ++ message

def message [Text.Display E] : LazyError E → String
  | initialization cause => "lazy initialization failed: " ++ Text.display cause.value
  | panicked message => panickedMessage message.value
  | interrupted => "interrupted while waiting for lazy initialization"
  | cancelled => "lazy reference has been cancelled"

instance [Text.Describe E] : Text.Describe (LazyError E) where
  describe
    | initialization cause => Text.wrapped "Initialization" (Text.describe cause.value)
    | panicked message => Text.wrapped "Panicked" (Text.describe message.value)
    | interrupted => "Interrupted"
    | cancelled => "Cancelled"

end LazyError

end Lazy

end SharedCells
