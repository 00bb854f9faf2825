import SharedCells.Lazy.Step

/-!
# Letting threads settle

Threads that take turns come to rest: each of them is then parked, waits for a gate or has
nothing left to do.

* `System.rests` tells whether a thread stays where it is until another one moves.
* `System.settle` lets threads take turns until all of them rest.
-/

namespace SharedCells.Lazy.System

variable {T E : Type}

/-- Whether a run of the initializer waits for a gate. -/
def isGated (initializer : Nat → Routine T E) (s : System T E) (run : Nat) : Bool :=
  decide (∃ gate ∈ (initializer run).gate, gate ∉ s.opened)

/-- Whether a thread has ended all calls that it has to make. -/
def isIdle (s : System T E) (t : Nat) : Bool :=
  (s.thread t).frames.isEmpty && (s.thread t).calls.isEmpty

/-- Whether a thread stays where it is until another one moves. -/
def rests (initializer : Nat → Routine T E) (s : System T E) (t : Nat) : Bool :=
  match (s.thread t).frames with
  | [] => (s.thread t).calls.isEmpty
  | ⟨_, .parked _⟩ :: _ => (s.thread t).status.park?.isNone
  | ⟨_, .running _ _ run []⟩ :: _ => s.isGated initializer run
  | _ => false

/-- One step of each of the first threads. -/
def lap (initializer : Nat → Routine T E) (s : System T E) (threads : Nat) : System T E :=
  s.run initializer ((List.range threads).map .thread)

/-- Laps of the first threads, at most so many, until all of them rest. -/
def settle (initializer : Nat → Routine T E) (threads : Nat) :
    (laps : Nat) → System T E → System T E
  | 0, s => s
  | laps + 1, s =>
    if (List.range threads).all (s.rests initializer) then s
    else settle initializer threads laps (s.lap initializer threads)

end SharedCells.Lazy.System
