/-!
# Snapshot iterators

A `Snapshot` is an iterator over items that were collected once, so later writes do not reach
it. It is consumed from both ends, and its length is always known.
-/

namespace SharedCells

/-- The items of an iterator that are still to come. -/
structure Snapshot (α : Type) where
  /-- The remaining items, the front one first. -/
  items : List α

namespace Snapshot

variable {α : Type}

/-- How many items are still to come. -/
def size (it : Snapshot α) : Nat := it.items.length

/-- Takes an item from the front. -/
def next (it : Snapshot α) : Option α × Snapshot α :=
  match it.items with
  | [] => (none, it)
  | a :: as => (some a, ⟨as⟩)

/-- Takes an item from the back. -/
def nextBack (it : Snapshot α) : Option α × Snapshot α :=
  match it.items.getLast? with
  | none => (none, it)
  | some a => (some a, ⟨it.items.dropLast⟩)

end Snapshot

end SharedCells
