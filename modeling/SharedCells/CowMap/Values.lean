import SharedCells.CowMap.Basic
import SharedCells.ViewError

/-!
# The values of a map

The values view of a map is a live view that compares values with `==`, which need not be
reflexive. Removing a value drops the first entry in iteration order that holds it; removing a
list of values drops every entry that holds one of them.
-/

namespace SharedCells.Values

open Store

variable {M K V : Type} [MapStore M K V]

def size (m : CowMap M) : Nat := m.size

def isEmpty (m : CowMap M) : Bool := m.isEmpty

/-- An iterator over the values as they are now. -/
def iter (m : CowMap M) : Snapshot V := ⟨m.entries.map Prod.snd⟩

/-- Drops the entries whose values a predicate does not keep. -/
def retain {σ : Type} (m : CowMap M) (s : Supply) (ask : σ → V → Except Panic (Bool × σ))
    (t : σ) : Written M Panic (Bool × σ) :=
  m.retain s (fun t (_, v) => ask t v) t

def clear (m : CowMap M) (s : Supply) : Written M Panic Unit := m.clear s

/-- A value cannot be put in without a key. -/
def insert (_ : CowMap M) (_ : V) : Except ViewError Bool :=
  .error (.unsupported .values .insert)

/-- Values cannot be put in without keys; the source is not asked for any. -/
def insertAll (_ : CowMap M) (_ : Feed V) : Except ViewError Bool :=
  .error (.unsupported .values .insertAll)

variable [BEq V]

/-- Whether some entry holds a value. -/
def contains (m : CowMap M) (v : V) : Bool := m.entries.any fun (_, held) => held == v

/-- Drops the first entry that holds a value; tells whether there was one. -/
def remove (m : CowMap M) (s : Supply) (v : V) : Written M Panic Bool :=
  m.write s fun w =>
    match (MapStore.entries w).find? fun (_, held) => held == v with
    | none => .ok (false, w)
    | some (k, _) =>
      let (w, previous) := MapStore.erase w k
      .ok (previous.isSome, w)

/-- Drops every entry that holds one of some values; tells whether there were any. -/
def removeAll (m : CowMap M) (s : Supply) (vs : List V) : Written M Panic Bool :=
  (m.retain s (keeping fun (_, held) => !vs.any fun v => v == held) ()).changed

end SharedCells.Values
