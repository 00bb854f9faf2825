import SharedCells.Lazy.Holder

/-!
# Calls on a lazy reference

A reference has a current holder. Most calls go to the holder that is current when they begin;
`reset` and `cancel` put another one in its place. The calls `resolve`, `force` and `retire` go
to a holder of their own choice.

* `Call.policy` says how a call waits.
* `Routine` is what one run of an initializer does: it may make calls on the very reference, it
  may wait for a gate, and it ends.
-/

namespace SharedCells.Lazy

/-- A call on a reference, on one of its holders or on the status of a thread. -/
inductive Call where
  /-- To get the value of the current holder. -/
  | get (policy : Policy)
  /-- One attempt to get the value of a holder. -/
  | resolve (h : Nat) (policy : Policy)
  /-- To get the value of a holder, retired or not. -/
  | force (h : Nat) (interruptible : Bool)
  /-- To mark a holder as replaced. -/
  | retire (h : Nat)
  /-- To install a fresh holder and to get the value of the one that it replaces. -/
  | reset
  | cancel
  /-- To look for the value, without waiting. -/
  | tryGet
  /-- To ask whether there is a value. -/
  | isInitialized
  /-- To ask whether the initializer failed. -/
  | isFailed
  /-- To ask whether the reference is cancelled. -/
  | isCancelled
  /-- To ask for the number of resets. -/
  | generation
  /-- To look at everything that can be seen without waiting. -/
  | inspect
  /-- To use the reference up and to get its value. -/
  | intoInner
  | interrupt (thread : Nat)
  /-- To interrupt the thread that makes the call. -/
  | interruptSelf
  /-- To ask whether the thread that makes the call was interrupted. -/
  | isInterrupted
  /-- The same, and to lower the status. -/
  | interrupted
deriving DecidableEq

def Call.policy : Call → Policy
  | get policy | resolve _ policy => policy
  | force _ interruptible => ⟨interruptible, false⟩
  | _ => ⟨false, false⟩

/-- What can be seen of a reference without waiting. -/
structure Inspection (T : Type) where
  generation : Nat
  /-- The value, if there is one. -/
  value? : Option (Shared T)
  failed : Bool
  cancelled : Bool
deriving DecidableEq

inductive Answer (T E : Type) where
  | outcome (o : Outcome T E)
  | retired
  /-- The value, if there is one. -/
  | value (v? : Option (Shared T))
  | flag (b : Bool)
  | count (n : Nat)
  /-- What can be seen without waiting. -/
  | view (i : Inspection T)
  | done

/-- What can be seen of a reference whose current holder is given. -/
def Holder.inspect {T E : Type} (h : Holder T E) (generation : Nat) : Inspection T :=
  ⟨generation, h.peek, h.isFailed, h.isCancelled⟩

/-- The answer to a call that only looks at a holder. -/
def Holder.observe {T E : Type} (h : Holder T E) (generation : Nat) :
    Call → Option (Answer T E)
  | .get _ => h.peek.map fun v => .outcome (.ok v)
  | .tryGet => some (.value h.peek)
  | .isInitialized => some (.flag h.peek.isSome)
  | .isFailed => some (.flag h.isFailed)
  | .isCancelled => some (.flag h.isCancelled)
  | .inspect => some (.view (h.inspect generation))
  | _ => none

/-- What one run of an initializer does. -/
structure Routine (T E : Type) where
  /-- The calls that it makes first, on the thread that runs it. -/
  during : List Call
  /-- The gate that it then waits for. -/
  gate : Option String
  ending : Ending T E

end SharedCells.Lazy
