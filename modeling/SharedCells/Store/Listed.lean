import SharedCells.Store.Basic
import SharedCells.Store.Distinct

/-!
# Stores in order of arrival

`ListedMap` and `ListedSet` list their content in the order in which the keys arrived. A value
put under a key that is there replaces the old one in its place, and dropping an entry keeps the
order of the others. Two of them are equal when their lists are, order included.
-/

namespace SharedCells.Store

variable {K V : Type}

/-- A finite map in order of arrival. -/
structure ListedMap (K V : Type) where
  /-- The entries, oldest key first. -/
  entries : List (K × V)
  /-- No two entries have one key. -/
  distinct : Distinct.Keyed Prod.fst entries

/-- A finite set in order of arrival. -/
structure ListedSet (K : Type) where
  /-- The items, oldest first. -/
  items : List K
  /-- No item is there twice. -/
  distinct : Distinct.Keyed id items

instance [BEq K] [BEq V] : BEq (ListedMap K V) := ⟨fun m n => m.entries == n.entries⟩

instance [BEq K] : BEq (ListedSet K) := ⟨fun s t => s.items == t.items⟩

namespace ListedMap

def empty : ListedMap K V := ⟨[], .nil⟩

/-- Drops the entries that a predicate does not keep. -/
def retain {σ : Type} (ask : σ → K × V → Except Panic (Bool × σ)) (s : σ) (m : ListedMap K V) :
    Except Panic (ListedMap K V × σ) :=
  match h : sift ask s m.entries with
  | .error p => .error p
  | .ok (kept, s) => .ok (⟨kept, m.distinct.sublist (sift_sublist h)⟩, s)

variable [DecidableEq K]

def lookup (m : ListedMap K V) (k : K) : Option V :=
  (Distinct.find? Prod.fst k m.entries).map Prod.snd

/-- Puts a value under a key. -/
def insert (m : ListedMap K V) (k : K) (v : V) : ListedMap K V :=
  ⟨Distinct.insert Prod.fst (k, v) m.entries, Distinct.insert_distinct _ m.distinct⟩

/-- Drops the entry of a key. -/
def erase (m : ListedMap K V) (k : K) : ListedMap K V :=
  ⟨Distinct.erase Prod.fst k m.entries, Distinct.erase_distinct k m.distinct⟩

instance : MapStore (ListedMap K V) K V where
  empty := empty
  entries m := m.entries
  size m := m.entries.length
  lookup := lookup
  insert m k v := (m.insert k v, m.lookup k)
  erase m k := (m.erase k, m.lookup k)
  clear _ := empty
  retain := retain

end ListedMap

namespace ListedSet

def empty : ListedSet K := ⟨[], .nil⟩

/-- Drops the items that a predicate does not keep. -/
def retain {σ : Type} (ask : σ → K → Except Panic (Bool × σ)) (t : σ) (s : ListedSet K) :
    Except Panic (ListedSet K × σ) :=
  match h : sift ask t s.items with
  | .error p => .error p
  | .ok (kept, t) => .ok (⟨kept, s.distinct.sublist (sift_sublist h)⟩, t)

variable [DecidableEq K]

def contains (s : ListedSet K) (k : K) : Bool := (Distinct.find? id k s.items).isSome

def insert (s : ListedSet K) (k : K) : ListedSet K :=
  ⟨Distinct.insert id k s.items, Distinct.insert_distinct _ s.distinct⟩

def erase (s : ListedSet K) (k : K) : ListedSet K :=
  ⟨Distinct.erase id k s.items, Distinct.erase_distinct k s.distinct⟩

instance : SetStore (ListedSet K) K where
  empty := empty
  items s := s.items
  size s := s.items.length
  contains := contains
  insert s k := (s.insert k, !s.contains k)
  erase s k := (s.erase k, s.contains k)
  clear _ := empty
  retain := retain

end ListedSet

end SharedCells.Store
