import SharedCells.Cas.Loop

/-!
# Callers in a race

Several callers work on one cell, each with a list of calls to make. Reading the cell, computing
a candidate and exchanging it are single steps, and the steps of different callers come in any
order; a rival that is no caller may store a value at any moment. Functions that compute
candidates share a state, in which they may allocate, and may panic.

* `Race.step` is one step of a caller or one store of a rival.
* `Race.run` follows a schedule.
* `Race.log` lists the exchanges that succeeded, the first one first.
-/

namespace SharedCells.Cas

structure Call (σ V : Type) where
  goal : Goal V
  /-- How it computes a candidate from the value read. -/
  propose : σ → V → Except Panic V × σ
  /-- How it pauses after a lost exchange, if it does. -/
  backoff : Option Backoff

structure Caller (σ V : Type) where
  /-- How far the current call has come. -/
  phase : Phase V
  /-- How many exchanges the current call has lost, as far as its policy counts them. -/
  lost : UInt32
  /-- The pauses made in the current call, the last one first. -/
  pauses : List Pause
  /-- The calls to make, the current one first. -/
  calls : List (Call σ V)
  /-- The answers of the calls that have ended, the first one first. -/
  answers : List (Except Panic V)

structure Exchange (V : Type) where
  caller : Nat
  /-- The value that was replaced. -/
  before : V
  /-- The value that was put in. -/
  after : V

structure Race (σ V : Type) where
  cell : V
  /-- The state that the functions share. -/
  state : σ
  callers : List (Caller σ V)
  log : List (Exchange V)

inductive Turn (V : Type) where
  | caller (i : Nat)
  /-- A rival, which stores a value. -/
  | rival (v : V)

namespace Race

variable {σ V : Type}

/-- A caller that has not started. -/
def idle (calls : List (Call σ V)) : Caller σ V := ⟨.ready, 0, [], calls, []⟩

/-- A race in which nobody has started. -/
def start (cell : V) (state : σ) (calls : List (List (Call σ V))) : Race σ V :=
  ⟨cell, state, calls.map idle, []⟩

/-- The race after a caller came to another phase. -/
def goTo (r : Race σ V) (i : Nat) (phase : Phase V) : Race σ V :=
  { r with callers := r.callers.modify i fun c => { c with phase } }

/-- The race after a caller ended its call. -/
def finish (r : Race σ V) (i : Nat) (answer : Except Panic V) : Race σ V :=
  { r with
    callers := r.callers.modify i fun c =>
      { idle c.calls.tail with answers := c.answers ++ [answer] } }

/-- The race after a move of a caller. -/
def move (r : Race σ V) (i : Nat) : Move V → Race σ V
  | .go phase => r.goTo i phase
  | .answer v => r.finish i (.ok v)

variable [DecidableEq V]

/-- One step of a caller whose current call is given. -/
def advance (r : Race σ V) (i : Nat) (call : Call σ V) : Phase V → Race σ V
  | .ready => r.move i (call.goal.seen r.cell)
  | .proposing current =>
    match call.propose r.state current with
    | (.error p, state) => { r with state }.finish i (.error p)
    | (.ok candidate, state) => { r with state }.move i (call.goal.proposed current candidate)
  | .exchanging current candidate =>
    let (next, cell) := call.goal.exchanged r.cell current candidate call.backoff.isSome
    let log := match next with
      | .answer _ => r.log ++ [⟨i, current, candidate⟩]
      | .go _ => r.log
    { r with cell, log }.move i next
  | .pausing =>
    { r with
      callers := r.callers.modify i fun c =>
        { c with
          phase := .ready
          lost := Backoff.next c.lost
          pauses := (call.backoff.getD .standard).pause c.lost :: c.pauses } }

def step (r : Race σ V) : Turn V → Race σ V
  | .rival v => { r with cell := v }
  | .caller i =>
    match r.callers[i]? with
    | some ⟨phase, _, _, call :: _, _⟩ => r.advance i call phase
    | _ => r

def run (r : Race σ V) (schedule : List (Turn V)) : Race σ V := schedule.foldl step r

end Race

end SharedCells.Cas
