import SharedCells.CopyOnWrite.Basic
import SharedCells.Feed
import SharedCells.Snapshot
import SharedCells.Store.Basic

/-!
# Copy-on-write maps

A copy-on-write map is a cell that publishes a store. Reads look at the published store; every
change, also one without an effect, is one write of the cell. A bulk change is one write, so a
panic of the source, of a predicate or of the copy function leaves the map as it was.
-/

namespace SharedCells

open Store

/-- A cell that publishes a map. -/
abbrev CowMap (M : Type) := CopyOnWrite M

namespace CowMap

variable {M K V : Type} [MapStore M K V]

/-- How many entries the map has. -/
def size (m : CowMap M) : Nat := MapStore.size m.contents

/-- Whether the map has no entries. -/
def isEmpty (m : CowMap M) : Bool := m.size == 0

/-- The entries in iteration order. -/
def entries (m : CowMap M) : List (K × V) := MapStore.entries m.contents

def get? (m : CowMap M) (k : K) : Option V := MapStore.lookup m.contents k

/-- Whether a key has a value. -/
def contains (m : CowMap M) (k : K) : Bool := (MapStore.lookup m.contents k).isSome

/-- An iterator over the entries as they are now. -/
def iter (m : CowMap M) : Snapshot (K × V) := ⟨m.entries⟩

/-- Puts a value under a key and gives the value that it replaced. -/
def put (m : CowMap M) (s : Supply) (k : K) (v : V) : Written M Panic (Option V) :=
  m.write s fun w =>
    let (w, previous) := MapStore.insert w k v
    .ok (previous, w)

/-- Drops the entry of a key and gives its value. -/
def remove (m : CowMap M) (s : Supply) (k : K) : Written M Panic (Option V) :=
  m.write s fun w =>
    let (w, previous) := MapStore.erase w k
    .ok (previous, w)

/-- Puts all entries that a source yields, in order. -/
def putAll (m : CowMap M) (s : Supply) (feed : Feed (K × V)) : Written M Panic Unit :=
  m.write s fun w =>
    (feed.fold (fun w (k, v) => (MapStore.insert w k v).1) w).map fun w => ((), w)

def clear (m : CowMap M) (s : Supply) : Written M Panic Unit :=
  m.write s fun w => .ok ((), MapStore.clear w)

/-- Drops the entries that a predicate does not keep; tells whether any were dropped, and the
predicate's last state. -/
def retain {σ : Type} (m : CowMap M) (s : Supply) (ask : σ → K × V → Except Panic (Bool × σ))
    (t : σ) : Written M Panic (Bool × σ) :=
  m.write s fun w =>
    (MapStore.retain ask t w).map fun (kept, t) =>
      ((MapStore.size kept != MapStore.size w, t), kept)

end CowMap

/-- A predicate without a state of its own, which never panics. -/
def keeping {α : Type} (keep : α → Bool) : Unit → α → Except Panic (Bool × Unit) :=
  fun _ a => .ok (keep a, ())

/-- The outcome of a write without the state of its predicate. -/
def Written.changed {C ε σ : Type} (w : Written C ε (Bool × σ)) : Written C ε Bool :=
  { w with result := w.result.map Prod.fst }

end SharedCells
