import SharedCells.Store.Listed

/-!
# Stores without an order

`UnorderedMap` and `UnorderedSet` list their content in some order that means nothing. Two of
them are equal when each holds what the other holds, whatever the order: for maps, when they have
as many entries and each entry of one is found in the other.
-/

namespace SharedCells.Store

variable {K V : Type}

/-- A finite map whose order means nothing. -/
structure UnorderedMap (K V : Type) extends ListedMap K V

/-- A finite set whose order means nothing. -/
structure UnorderedSet (K : Type) extends ListedSet K

namespace UnorderedMap

variable [DecidableEq K]

instance : MapStore (UnorderedMap K V) K V where
  empty := ⟨.empty⟩
  entries m := m.entries
  size m := m.entries.length
  lookup m k := m.toListedMap.lookup k
  insert m k v := (⟨m.toListedMap.insert k v⟩, m.toListedMap.lookup k)
  erase m k := (⟨m.toListedMap.erase k⟩, m.toListedMap.lookup k)
  clear _ := ⟨.empty⟩
  retain ask s m := (m.toListedMap.retain ask s).map fun (m, s) => (⟨m⟩, s)

instance [BEq V] : BEq (UnorderedMap K V) where
  beq m n :=
    m.entries.length == n.entries.length &&
      m.entries.all fun (k, v) => (n.toListedMap.lookup k).any (v == ·)

end UnorderedMap

namespace UnorderedSet

variable [DecidableEq K]

instance : SetStore (UnorderedSet K) K where
  empty := ⟨.empty⟩
  items s := s.items
  size s := s.items.length
  contains s k := s.toListedSet.contains k
  insert s k := (⟨s.toListedSet.insert k⟩, !s.toListedSet.contains k)
  erase s k := (⟨s.toListedSet.erase k⟩, s.toListedSet.contains k)
  clear _ := ⟨.empty⟩
  retain ask t s := (s.toListedSet.retain ask t).map fun (s, t) => (⟨s⟩, t)

instance : BEq (UnorderedSet K) where
  beq s t := s.items.length == t.items.length && s.items.all t.toListedSet.contains

end UnorderedSet

end SharedCells.Store
