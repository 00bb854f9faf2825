import SharedCells.CowMap.Basic
import SharedCells.Digest.Fingerprint
import SharedCells.ViewError

/-!
# The keys of a map

The key set of a map is a live view: it reads the published store and removes through the map. It
accepts no insertion. Two key sets are equal when they have as many keys and every key of one is
in the other; the digest of a key set does not depend on the order of the keys.
-/

namespace SharedCells.KeySet

open Store

variable {M K V : Type} [MapStore M K V]

def size (m : CowMap M) : Nat := m.size

def isEmpty (m : CowMap M) : Bool := m.isEmpty

def contains (m : CowMap M) (k : K) : Bool := m.contains k

/-- An iterator over the keys as they are now. -/
def iter (m : CowMap M) : Snapshot K := ⟨m.entries.map Prod.fst⟩

/-- Drops the entry of a key; tells whether there was one. -/
def remove (m : CowMap M) (s : Supply) (k : K) : Written M Panic Bool :=
  let w := m.remove s k
  { w with result := w.result.map Option.isSome }

/-- Drops the entries of all keys that a source yields; tells whether there were any. -/
def removeAll (m : CowMap M) (s : Supply) (feed : Feed K) : Written M Panic Bool :=
  m.write s fun w =>
    feed.fold (fun (changed, w) k =>
      let (w, previous) := MapStore.erase w k
      (changed || previous.isSome, w)) (false, w)

/-- Drops the entries whose keys a predicate does not keep. -/
def retain {σ : Type} (m : CowMap M) (s : Supply) (ask : σ → K → Except Panic (Bool × σ))
    (t : σ) : Written M Panic (Bool × σ) :=
  m.retain s (fun t (k, _) => ask t k) t

def clear (m : CowMap M) (s : Supply) : Written M Panic Unit := m.clear s

/-- A key cannot be put in without a value. -/
def insert (_ : CowMap M) (_ : K) : Except ViewError Bool :=
  .error (.unsupported .keys .insert)

/-- Keys cannot be put in without values; the source is not asked for any. -/
def insertAll (_ : CowMap M) (_ : Feed K) : Except ViewError Bool :=
  .error (.unsupported .keys .insertAll)

/-- Whether the keys are as many as some others and all among them. -/
def sameKeys (m : CowMap M) (count : Nat) (isThere : K → Bool) : Bool :=
  MapStore.size m.contents == count && (m.entries.all fun (k, _) => isThere k)

/-- Whether two maps have the same keys. -/
def equal {N W : Type} [MapStore N K W] (m : CowMap M) (n : CowMap N) : Bool :=
  sameKeys m (MapStore.size n.contents) fun k => (MapStore.lookup n.contents k).isSome

/-- Whether the keys are the items of a set. -/
def equalsSet {S : Type} [SetStore S K] (m : CowMap M) (set : S) : Bool :=
  sameKeys m (SetStore.size set) (SetStore.contains set)

/-- What the keys give to a digest. -/
def bytes [Digest.Fingerprint K] (m : CowMap M) : List UInt8 :=
  Digest.unorderedBytes (m.entries.map Prod.fst)

end SharedCells.KeySet
