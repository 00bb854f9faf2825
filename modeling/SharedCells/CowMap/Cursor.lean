import SharedCells.CowMap.Basic
import SharedCells.ViewError

/-!
# Cursors

A cursor walks through entries collected when it was made and remembers the key that it yielded
last, so that this key can be removed from the live map. `Cursor.remove` forgets the key before
it writes, also where the write then fails.
-/

namespace SharedCells

open Store

/-- A walk through collected entries, shown as items. -/
structure Cursor (K V α : Type) where
  /-- The entries still to come. -/
  remaining : List (K × V)
  project : K → V → α
  /-- The key yielded last, unless it was removed. -/
  current : Option K

namespace Cursor

variable {K V α : Type}

/-- A cursor before the first of some entries. -/
def ofEntries (entries : List (K × V)) (project : K → V → α) : Cursor K V α :=
  ⟨entries, project, none⟩

/-- How many items are still to come. -/
def size (c : Cursor K V α) : Nat := c.remaining.length

/-- Yields the next item and remembers its key. At the end the key remembered stays. -/
def next (c : Cursor K V α) : Option α × Cursor K V α :=
  match c.remaining with
  | [] => (none, c)
  | (k, v) :: rest => (some (c.project k v), { c with remaining := rest, current := some k })

/-- Removes the key yielded last from the live map. The key is forgotten before the write. -/
def remove {M : Type} [MapStore M K V] (c : Cursor K V α) (m : CowMap M) (s : Supply) :
    Cursor K V α × Written M (Fault ViewError) Unit :=
  match c.current with
  | none => (c, ⟨.error (.rejected .noCurrentElement), m, s⟩)
  | some k =>
    let w := m.remove s k
    let result := match w.result with
      | .ok _ => .ok ()
      | .error p => .error (.panicked p)
    ({ c with current := none }, ⟨result, w.cell, w.supply⟩)

end Cursor

end SharedCells
