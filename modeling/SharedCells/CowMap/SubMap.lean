import SharedCells.CowMap.Cursor
import SharedCells.KeyRange
import SharedCells.Store.Sorted

/-!
# Sorted maps and their parts

A map over a sorted store has a first and a last key, and live views of the part that lies in a
key range. Single keys are tested against the range; scans read the store's own range; `clear`
and `retain` go through the whole map and pass over what lies outside.

* `SubMap.put` refuses a key outside the range, and `SubMap.remove` finds nothing there.
* `SubMap.removeAll` writes once, or not at all when no key asked for lies in the range.
* `SubMap.sameEntries` compares two ascending lists pair by pair.
-/

namespace SharedCells

open Store

namespace SubMap

variable {K V : Type}

def headOf (stop : K) : KeyRange K := ⟨.unbounded, .excluded stop⟩

/-- The keys from a key on. -/
def tailOf (start : K) : KeyRange K := ⟨.included start, .unbounded⟩

/-- Whether two lists of entries agree pair by pair. -/
def sameEntries [BEq K] [BEq V] : List (K × V) → List (K × V) → Bool
  | [], [] => true
  | (k, v) :: es, (k', v') :: es' => k == k' && v == v' && sameEntries es es'
  | _, _ => false

end SubMap

variable {K V : Type} [LE K] [LT K] [DecidableLE K] [DecidableLT K]
  [Std.IsLinearOrder K] [Std.LawfulOrderLT K]

namespace CowMap

/-- The entry with the least key. -/
def firstEntry (m : CowMap (SortedMap K V)) : Option (K × V) :=
  (m.contents.range .unbounded .unbounded).head?

/-- The entry with the greatest key. -/
def lastEntry (m : CowMap (SortedMap K V)) : Option (K × V) :=
  (m.contents.range .unbounded .unbounded).getLast?

def firstKey (m : CowMap (SortedMap K V)) : Option K := m.firstEntry.map Prod.fst

def lastKey (m : CowMap (SortedMap K V)) : Option K := m.lastEntry.map Prod.fst

end CowMap

namespace SubMap

/-! ## Which part -/

/-- The keys from one key up to another. -/
def between (start stop : K) : Except ViewError (KeyRange K) :=
  KeyRange.ofBounds (.included start) (.excluded stop)

/-- The keys of a range below a key. -/
def headWithin (r : KeyRange K) (stop : K) : Except ViewError (KeyRange K) :=
  r.narrow .unbounded (.excluded stop)

/-- The keys of a range from a key on. -/
def tailWithin (r : KeyRange K) (start : K) : Except ViewError (KeyRange K) :=
  r.narrow (.included start) .unbounded

/-- The keys of a range from one key up to another. -/
def betweenWithin (r : KeyRange K) (start stop : K) : Except ViewError (KeyRange K) :=
  r.narrow (.included start) (.excluded stop)

/-! ## Reads -/

/-- The entries in the range, in ascending order. -/
def entries (r : KeyRange K) (m : CowMap (SortedMap K V)) : List (K × V) :=
  m.contents.range r.lower r.upper

/-- The value under a key of the range. -/
def get? (r : KeyRange K) (m : CowMap (SortedMap K V)) (k : K) : Option V :=
  if r.contains k then m.get? k else none

/-- Whether a key of the range has a value. -/
def contains (r : KeyRange K) (m : CowMap (SortedMap K V)) (k : K) : Bool :=
  r.contains k && m.contains k

/-- How many entries lie in the range. -/
def size (r : KeyRange K) (m : CowMap (SortedMap K V)) : Nat := (entries r m).length

/-- Whether no entry lies in the range. -/
def isEmpty (r : KeyRange K) (m : CowMap (SortedMap K V)) : Bool := (entries r m).head?.isNone

/-- The least key in the range. -/
def firstKey (r : KeyRange K) (m : CowMap (SortedMap K V)) : Option K :=
  (entries r m).head?.map Prod.fst

/-- The greatest key in the range. -/
def lastKey (r : KeyRange K) (m : CowMap (SortedMap K V)) : Option K :=
  (entries r m).getLast?.map Prod.fst

/-- An iterator over the entries as they are now. -/
def iter (r : KeyRange K) (m : CowMap (SortedMap K V)) : Snapshot (K × V) := ⟨entries r m⟩

/-- An iterator over the keys as they are now. -/
def keys (r : KeyRange K) (m : CowMap (SortedMap K V)) : Snapshot K :=
  ⟨(entries r m).map Prod.fst⟩

/-- An iterator over the values as they are now. -/
def values (r : KeyRange K) (m : CowMap (SortedMap K V)) : Snapshot V :=
  ⟨(entries r m).map Prod.snd⟩

/-- A cursor over the entries as they are now. -/
def cursor {α : Type} (r : KeyRange K) (m : CowMap (SortedMap K V)) (project : K → V → α) :
    Cursor K V α :=
  .ofEntries (entries r m) project

/-! ## Writes -/

/-- Puts a value under a key of the range; refused elsewhere. -/
def put (r : KeyRange K) (m : CowMap (SortedMap K V)) (s : Supply) (k : K) (v : V) :
    Written (SortedMap K V) (Fault ViewError) (Option V) :=
  if r.contains k then
    let w := m.put s k v
    let result := match w.result with
      | .ok previous => .ok previous
      | .error p => .error (.panicked p)
    ⟨result, w.cell, w.supply⟩
  else ⟨.error (.rejected .keyOutOfRange), m, s⟩

/-- Drops the entry of a key of the range. -/
def remove (r : KeyRange K) (m : CowMap (SortedMap K V)) (s : Supply) (k : K) :
    Written (SortedMap K V) Panic (Option V) :=
  if r.contains k then m.remove s k else ⟨.ok none, m, s⟩

/-- Drops the entries of all keys of the range that a source yields; tells whether there were
any. The source is read to its end before the map is written. -/
def removeAll (r : KeyRange K) (m : CowMap (SortedMap K V)) (s : Supply) (feed : Feed K) :
    Written (SortedMap K V) Panic Bool :=
  match feed.failure with
  | some p => ⟨.error p, m, s⟩
  | none =>
    match feed.items.filter r.contains with
    | [] => ⟨.ok false, m, s⟩
    | ks =>
      m.write s fun w =>
        .ok (ks.foldl (fun (changed, w) k =>
          let (w, previous) := MapStore.erase w k
          (previous.isSome || changed, w)) (false, w))

/-- Drops the entries in the range. -/
def clear (r : KeyRange K) (m : CowMap (SortedMap K V)) (s : Supply) :
    Written (SortedMap K V) Panic Unit :=
  let w := m.retain s (keeping fun (k, _) => !r.contains k) ()
  { w with result := w.result.map fun _ => () }

/-- Drops the entries in the range that a predicate does not keep; the others are not asked
about. -/
def retain {σ : Type} (r : KeyRange K) (m : CowMap (SortedMap K V)) (s : Supply)
    (ask : σ → K × V → Except Panic (Bool × σ)) (t : σ) :
    Written (SortedMap K V) Panic (Bool × σ) :=
  m.retain s (fun t (k, v) => if r.contains k then ask t (k, v) else .ok (true, t)) t

/-! ## Comparison -/

/-- Whether two parts of maps hold the same entries. -/
def equal [BEq K] [BEq V] (r : KeyRange K) (m : CowMap (SortedMap K V)) (r' : KeyRange K)
    (m' : CowMap (SortedMap K V)) : Bool :=
  sameEntries (entries r m) (entries r' m')

/-- Whether a part of a map holds the entries of a sorted store. -/
def equalsStore [BEq K] [BEq V] (r : KeyRange K) (m : CowMap (SortedMap K V))
    (other : SortedMap K V) : Bool :=
  sameEntries (entries r m) other.entries

end SubMap

end SharedCells
