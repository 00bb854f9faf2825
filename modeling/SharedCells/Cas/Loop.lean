import SharedCells.Cas.Backoff
import SharedCells.Panic

/-!
# Retry loops

A cell holds one value and can be exchanged: a new value goes in if the cell still holds the one
that the caller saw. Two values are the same when they are equal. An integer is what it is, so a
cell of integers compares values; a cell of references holds an `Address`, so it compares
identities, and an absent reference is the same as another absent one.

A call reads the cell, computes a candidate and exchanges it, and starts over when the cell has
moved on meanwhile. A `Goal` says what it is after.

* `Goal.seen`, `Goal.proposed` and `Goal.exchanged` are the three moves of a call: what follows
  from the value read, from the candidate, and from the exchange.
-/

namespace SharedCells.Cas

/-- The identity of an allocation. -/
structure Address where
  index : Nat
deriving DecidableEq

variable {V : Type} [DecidableEq V]

/-- Exchanges the value of a cell if it is still the one given; tells whether it was. -/
def compareAndSet (cell current new : V) : Bool × V :=
  if cell = current then (true, new) else (false, cell)

inductive Goal (V : Type) where
  /-- To put a candidate in and give it back. -/
  | update
  /-- To put a candidate in and give back the value that it replaced. -/
  | getAndUpdate
  /-- To put a candidate in while the cell holds an expected value, and to give back the value
  held afterwards. -/
  | getOrSetIf (expected : V)

/-- How far a call has come. -/
inductive Phase (V : Type) where
  /-- It is about to read the cell. -/
  | ready
  /-- It computes a candidate from the value read. -/
  | proposing (current : V)
  /-- It is about to exchange the value read for the candidate. -/
  | exchanging (current candidate : V)
  /-- It pauses after a lost exchange. -/
  | pausing

/-- What a move leads to: another phase, or the end of the call with its answer. -/
inductive Move (V : Type) where
  | go (phase : Phase V)
  | answer (v : V)

namespace Goal

/-- What follows from the value read. -/
def seen (current : V) : Goal V → Move V
  | update | getAndUpdate => .go (.proposing current)
  | getOrSetIf expected =>
    if current = expected then .go (.proposing current) else .answer current

/-- What follows from a candidate. A candidate that is the expected value is not put in. -/
def proposed (current candidate : V) : Goal V → Move V
  | update | getAndUpdate => .go (.exchanging current candidate)
  | getOrSetIf _ =>
    if candidate = current then .answer current else .go (.exchanging current candidate)

/-- What a call gives back once its candidate is in. -/
def result (current candidate : V) : Goal V → V
  | update | getOrSetIf _ => candidate
  | getAndUpdate => current

/-- What follows from an exchange, and the value of the cell after it. -/
def exchanged (goal : Goal V) (cell current candidate : V) (backsOff : Bool) : Move V × V :=
  match compareAndSet cell current candidate with
  | (true, cell) => (.answer (goal.result current candidate), cell)
  | (false, cell) => (.go (if backsOff then .pausing else .ready), cell)

theorem seen_eq (goal : Goal V) (current : V) :
    goal.seen current = .go (.proposing current) ∨ goal.seen current = .answer current := by
  cases goal with
  | getOrSetIf expected =>
    rw [seen]
    split
    · exact Or.inl rfl
    · exact Or.inr rfl
  | _ => exact Or.inl rfl

theorem proposed_eq (goal : Goal V) (current candidate : V) :
    goal.proposed current candidate = .go (.exchanging current candidate) ∨
      goal.proposed current candidate = .answer current := by
  cases goal with
  | getOrSetIf expected =>
    rw [proposed]
    split
    · exact Or.inr rfl
    · exact Or.inl rfl
  | _ => exact Or.inl rfl

/-- An exchange ends the call if the cell still holds the value read. -/
theorem exchanged_eq (goal : Goal V) (cell current candidate : V) (backsOff : Bool) :
    goal.exchanged cell current candidate backsOff =
      if cell = current then (.answer (goal.result current candidate), candidate)
      else (.go (if backsOff then .pausing else .ready), cell) := by
  rw [exchanged, compareAndSet]
  by_cases hsame : cell = current
  · rw [if_pos hsame, if_pos hsame]
  · rw [if_neg hsame, if_neg hsame]

end Goal

end SharedCells.Cas
