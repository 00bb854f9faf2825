import SharedCells.Lazy.Outcome

/-!
# Holders

A holder computes its outcome at most once. It goes from unresolved to resolving when a caller
claims it, and to complete when that caller has published the outcome; a cancelled holder never
was anything else. Callers that come while it is resolving register as waiters and park.

A holder that was replaced is retired. Waiters whose `Policy` says so leave it then; whoever
computes its outcome goes on.
-/

namespace SharedCells.Lazy

/-- Which events, besides completion, end the wait of a caller. -/
structure Policy where
  /-- The caller leaves when its thread is interrupted. -/
  interruptible : Bool
  /-- The caller leaves when the holder is retired. -/
  leaveOnRetire : Bool
deriving DecidableEq

inductive Phase where
  | unresolved
  | resolving
  | complete
  | cancelled
deriving DecidableEq

/-- A cell that is computed at most once. -/
structure Holder (T E : Type) where
  phase : Phase
  /-- Whether it was replaced. -/
  retired : Bool
  /-- The outcome, once it is published. -/
  outcome : Option (Outcome T E)
  /-- Whether the initializer is still there to be run. -/
  armed : Bool
  /-- The threads that registered to be woken. -/
  waiters : List Nat

namespace Holder

variable {T E : Type}

/-- A holder that nobody has asked yet. -/
def fresh : Holder T E := ⟨.unresolved, false, none, true, []⟩

/-- A holder with an outcome from the start. -/
def resolved (v : Shared T) : Holder T E := ⟨.complete, false, some (.ok v), false, []⟩

/-- A holder that fails every access. -/
def cancelled : Holder T E := ⟨.cancelled, false, none, false, []⟩

/-- The value, if it was computed successfully. -/
def peek (h : Holder T E) : Option (Shared T) :=
  match h.outcome with
  | some (.ok v) => some v
  | _ => none

/-- Whether the initializer ran and failed. -/
def isFailed (h : Holder T E) : Bool :=
  match h.outcome with
  | some (.error _) => true
  | _ => false

/-- Whether the holder fails every access. -/
def isCancelled (h : Holder T E) : Bool := decide (h.phase = .cancelled)

end Holder

end SharedCells.Lazy
