import SharedCells.CopyOnWrite.Basic
import SharedCells.Feed
import SharedCells.Snapshot
import SharedCells.Store.Basic

/-!
# Copy-on-write sets

A copy-on-write set is a cell that publishes a store of items. Every change, single or bulk,
with an effect or without, is one write of the cell. A bulk change goes through all its items,
whatever the first ones did.
-/

namespace SharedCells

open Store

/-- A cell that publishes a set. -/
abbrev CowSet (S : Type) := CopyOnWrite S

namespace CowSet

variable {S α : Type} [SetStore S α]

/-- How many items the set has. -/
def size (c : CowSet S) : Nat := SetStore.size c.contents

/-- Whether the set has no items. -/
def isEmpty (c : CowSet S) : Bool := c.size == 0

/-- The items in iteration order. -/
def items (c : CowSet S) : List α := SetStore.items c.contents

def contains (c : CowSet S) (a : α) : Bool := SetStore.contains c.contents a

/-- An iterator over the items as they are now. -/
def iter (c : CowSet S) : Snapshot α := ⟨c.items⟩

/-- Adds an item; tells whether it is new. -/
def insert (c : CowSet S) (s : Supply) (a : α) : Written S Panic Bool :=
  c.write s fun w =>
    let (w, new) := SetStore.insert w a
    .ok (new, w)

/-- Drops an item; tells whether it was there. -/
def remove (c : CowSet S) (s : Supply) (a : α) : Written S Panic Bool :=
  c.write s fun w =>
    let (w, there) := SetStore.erase w a
    .ok (there, w)

/-- Adds all items that a source yields; tells whether any is new. -/
def insertAll (c : CowSet S) (s : Supply) (feed : Feed α) : Written S Panic Bool :=
  c.write s fun w =>
    feed.fold (fun (changed, w) a =>
      let (w, new) := SetStore.insert w a
      (new || changed, w)) (false, w)

/-- Drops all items that a source yields; tells whether any was there. -/
def removeAll (c : CowSet S) (s : Supply) (feed : Feed α) : Written S Panic Bool :=
  c.write s fun w =>
    feed.fold (fun (changed, w) a =>
      let (w, there) := SetStore.erase w a
      (there || changed, w)) (false, w)

/-- Drops the items that a predicate does not keep; tells whether any were dropped, and the
predicate's last state. -/
def retain {σ : Type} (c : CowSet S) (s : Supply) (ask : σ → α → Except Panic (Bool × σ))
    (t : σ) : Written S Panic (Bool × σ) :=
  c.write s fun w =>
    (SetStore.retain ask t w).map fun (kept, t) =>
      ((SetStore.size kept != SetStore.size w, t), kept)

def clear (c : CowSet S) (s : Supply) : Written S Panic Unit :=
  c.write s fun w => .ok ((), SetStore.clear w)

end CowSet

end SharedCells
