import SharedCells.Panic

/-!
# Feeds

A bulk operation draws its items from the caller one at a time, and the caller's code may panic
instead of yielding the next one. A `Feed` is what such a source yields: its items, and the panic
that ends it, if one does.
-/

namespace SharedCells

/-- Items that a caller yields one after another, perhaps cut short by a panic. -/
structure Feed (α : Type) where
  /-- The items yielded, in order. -/
  items : List α
  /-- The panic that comes instead of the next item. -/
  failure : Option Panic

namespace Feed

variable {α β : Type}

/-- A source that yields the items of a list and ends. -/
def ofList (items : List α) : Feed α := ⟨items, none⟩

/-- A source that panics instead of yielding the item at a position, if there is one. -/
def failingAt (items : List α) (position : Nat) (p : Panic) : Feed α :=
  if position < items.length then ⟨items.take position, some p⟩ else ofList items

/-- Runs through a source with an accumulator; a panic of the source discards it. -/
def fold (f : β → α → β) (b : β) (feed : Feed α) : Except Panic β :=
  match feed.failure with
  | some p => .error p
  | none => .ok (feed.items.foldl f b)

end Feed

end SharedCells
