/-!
# Interruption

Every thread has a status that others can raise and only the thread itself clears, and a permit
that lets it pass its next park. Raising the status of a thread also gives it the permit, so a
thread that is parked notices. Looking at the status changes nothing.

* `Status.interrupt` is what a handle does to its thread.
* `Status.clear` gives the status and lowers it.
* `Status.park` uses the permit up; without one the thread stays parked.
-/

namespace SharedCells

/-- What a thread is told by others. -/
structure Status where
  interrupted : Bool := false
  /-- Whether its next park lets it pass. -/
  permit : Bool := false
deriving DecidableEq

namespace Status

def raise (s : Status) : Status := { s with interrupted := true }

def unpark (s : Status) : Status := { s with permit := true }

/-- What a handle does to its thread. -/
def interrupt (s : Status) : Status := s.raise.unpark

/-- Whether the thread was interrupted, and its status lowered. -/
def clear (s : Status) : Bool × Status := (s.interrupted, { s with interrupted := false })

/-- The thread after it has passed a park, if it may. -/
def park? (s : Status) : Option Status :=
  if s.permit then some { s with permit := false } else none

end Status

end SharedCells
