import SharedCells.Store.Ascending
import SharedCells.Store.Basic

/-!
# Sorted stores

`SortedMap` and `SortedSet` list their content in ascending order of the keys; a list that is
out of order cannot be one. Only a sorted map has ranges: `SortedMap.range` lists the entries
between two bounds. Bounds that leave no room give nothing; all others are fit for a slice.
-/

namespace SharedCells.Store

variable {K V : Type} [LT K]

/-- A finite map in ascending order of its keys. -/
structure SortedMap (K V : Type) [LT K] where
  /-- The entries, least key first. -/
  entries : List (K × V)
  /-- The keys grow from entry to entry. -/
  ascending : Ascending.Sorted Prod.fst entries

/-- A finite set in ascending order. -/
structure SortedSet (K : Type) [LT K] where
  /-- The items, least first. -/
  items : List K
  /-- The items grow. -/
  ascending : Ascending.Sorted id items

/-- Two sorted maps are equal when their entries are, one by one. -/
instance [BEq K] [BEq V] : BEq (SortedMap K V) := ⟨fun m n => m.entries == n.entries⟩

instance [BEq K] : BEq (SortedSet K) := ⟨fun s t => s.items == t.items⟩

variable [DecidableLT K]

namespace SortedMap

def empty : SortedMap K V := ⟨[], .nil⟩

def lookup (m : SortedMap K V) (k : K) : Option V :=
  (Ascending.find? Prod.fst k m.entries).map Prod.snd

/-- Drops the entry of a key. -/
def erase (m : SortedMap K V) (k : K) : SortedMap K V :=
  ⟨Ascending.erase Prod.fst k m.entries, m.ascending.sublist (Ascending.erase_sublist ..)⟩

/-- Drops the entries that a predicate does not keep. -/
def retain {σ : Type} (ask : σ → K × V → Except Panic (Bool × σ)) (s : σ) (m : SortedMap K V) :
    Except Panic (SortedMap K V × σ) :=
  match h : sift ask s m.entries with
  | .error p => .error p
  | .ok (kept, s) => .ok (⟨kept, m.ascending.sublist (sift_sublist h)⟩, s)

variable [LE K] [DecidableLE K] [Std.IsLinearOrder K] [Std.LawfulOrderLT K]

/-- Puts a value under a key. -/
def insert (m : SortedMap K V) (k : K) (v : V) : SortedMap K V :=
  ⟨Ascending.insert Prod.fst (k, v) m.entries, Ascending.insert_ascending _ m.ascending⟩

instance : MapStore (SortedMap K V) K V where
  empty := empty
  entries m := m.entries
  size m := m.entries.length
  lookup := lookup
  insert m k v := (m.insert k v, m.lookup k)
  erase m k := (m.erase k, m.lookup k)
  clear _ := empty
  retain := retain

/-- The entries between two bounds, in ascending order. -/
def range (m : SortedMap K V) (lower upper : Bound K) : List (K × V) :=
  if h : lower.empties upper = true then []
  else
    Ascending.slice Prod.fst lower upper m.entries
      (Bound.sliceable_of_empties_eq_false (by simpa using h))

end SortedMap

namespace SortedSet

def empty : SortedSet K := ⟨[], .nil⟩

def contains (s : SortedSet K) (k : K) : Bool := (Ascending.find? id k s.items).isSome

def erase (s : SortedSet K) (k : K) : SortedSet K :=
  ⟨Ascending.erase id k s.items, s.ascending.sublist (Ascending.erase_sublist ..)⟩

/-- Drops the items that a predicate does not keep. -/
def retain {σ : Type} (ask : σ → K → Except Panic (Bool × σ)) (t : σ) (s : SortedSet K) :
    Except Panic (SortedSet K × σ) :=
  match h : sift ask t s.items with
  | .error p => .error p
  | .ok (kept, t) => .ok (⟨kept, s.ascending.sublist (sift_sublist h)⟩, t)

variable [LE K] [Std.IsLinearOrder K] [Std.LawfulOrderLT K]

def insert (s : SortedSet K) (k : K) : SortedSet K :=
  ⟨Ascending.insert id k s.items, Ascending.insert_ascending _ s.ascending⟩

instance : SetStore (SortedSet K) K where
  empty := empty
  items s := s.items
  size s := s.items.length
  contains := contains
  insert s k := (s.insert k, !s.contains k)
  erase s k := (s.erase k, s.contains k)
  clear _ := empty
  retain := retain

end SortedSet

end SharedCells.Store
