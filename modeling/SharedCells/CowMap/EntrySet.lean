import SharedCells.CowMap.Basic
import SharedCells.Digest.Fingerprint
import SharedCells.ViewError

/-!
# The entries of a map

The entry set of a map is a live view of its pairs. A pair is there when its key has a value
that equals its own, and only such a pair is removed. Two entry sets are equal when they have as
many pairs and every pair of one is in the other; the digest does not depend on their order.
-/

namespace SharedCells.EntrySet

open Store

variable {M K V : Type} [MapStore M K V]

def size (m : CowMap M) : Nat := m.size

def isEmpty (m : CowMap M) : Bool := m.isEmpty

/-- An iterator over the pairs as they are now. -/
def iter (m : CowMap M) : Snapshot (K × V) := m.iter

/-- Drops the pairs that a predicate does not keep. -/
def retain {σ : Type} (m : CowMap M) (s : Supply) (ask : σ → K × V → Except Panic (Bool × σ))
    (t : σ) : Written M Panic (Bool × σ) :=
  m.retain s ask t

def clear (m : CowMap M) (s : Supply) : Written M Panic Unit := m.clear s

/-- A pair is put in through the map. -/
def insert (_ : CowMap M) (_ : K × V) : Except ViewError Bool :=
  .error (.unsupported .entries .insert)

/-- Pairs are put in through the map; the source is not asked for any. -/
def insertAll (_ : CowMap M) (_ : Feed (K × V)) : Except ViewError Bool :=
  .error (.unsupported .entries .insertAll)

/-- What the pairs give to a digest. -/
def bytes [Digest.Fingerprint K] [Digest.Fingerprint V] (m : CowMap M) : List UInt8 :=
  Digest.unorderedBytes m.entries

variable [BEq V]

/-- Whether a store has a value under a key that equals a given one. -/
def holds (w : M) (k : K) (v : V) : Bool := (MapStore.lookup w k).any fun held => held == v

def contains (m : CowMap M) (k : K) (v : V) : Bool := holds m.contents k v

/-- Drops a pair if it is there; tells whether it was. -/
def remove (m : CowMap M) (s : Supply) (k : K) (v : V) : Written M Panic Bool :=
  m.write s fun w =>
    if holds w k v then
      let (w, previous) := MapStore.erase w k
      .ok (previous.isSome, w)
    else .ok (false, w)

/-- Drops every pair that is among some others; tells whether there were any. -/
def removeAll [BEq K] (m : CowMap M) (s : Supply) (es : List (K × V)) : Written M Panic Bool :=
  (m.retain s (keeping fun (k, v) => !es.any fun (k', v') => k' == k && v' == v) ()).changed

/-- Whether the pairs are those of a store. -/
def equalsStore {N : Type} [MapStore N K V] (m : CowMap M) (other : N) : Bool :=
  MapStore.size m.contents == MapStore.size other &&
    (m.entries.all fun (k, v) => MapStore.lookup other k == some v)

/-- Whether two maps have the same pairs. -/
def equal {N : Type} [MapStore N K V] (m : CowMap M) (n : CowMap N) : Bool :=
  equalsStore m n.contents

end SharedCells.EntrySet
