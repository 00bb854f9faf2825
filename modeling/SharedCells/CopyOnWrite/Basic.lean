import SharedCells.Panic

/-!
# Copy-on-write cells

A cell publishes an allocation and never changes it. A write copies the published contents,
mutates the copy, publishes the copy as a new allocation and counts one more version. What fails
on the way, the copy function or the mutation, leaves the cell as it was.

* `Copier` is how a cell copies. A custom copy function is told how many copies were made
  before, so that it may answer differently each time, and may panic.
* `Supply` holds what all cells of one program share: the number of custom copies made and the
  number of allocations given out.
* `CopyOnWrite.attempt` is the one way in which a cell changes; `write` and `tryWrite` are its
  two uses.
-/

namespace SharedCells

/-- What all cells of a program draw from. -/
structure Supply where
  /-- How many copies custom copy functions were asked for. -/
  copies : Nat := 0
  /-- How many allocations were given out. -/
  allocations : Nat := 0

/-- A value with the identity of the allocation that holds it. -/
structure Published (C : Type) where
  /-- The identity of the allocation. -/
  address : Nat
  /-- The value that the allocation holds. -/
  contents : C

/-- Puts a value into a new allocation. -/
def Supply.allocate {C : Type} (s : Supply) (contents : C) : Published C × Supply :=
  (⟨s.allocations, contents⟩, { s with allocations := s.allocations + 1 })

/-- How a cell copies its contents. -/
inductive Copier (C : Type) where
  /-- The copy is the same value; nobody counts it. -/
  | plain
  /-- The copy is made by a function of the number of copies asked for so far, this one
  included. -/
  | custom (copy : Nat → C → Except Panic C)

def Copier.copy {C : Type} (copier : Copier C) (s : Supply) (c : C) : Except Panic C × Supply :=
  match copier with
  | plain => (.ok c, s)
  | custom f => (f (s.copies + 1) c, { s with copies := s.copies + 1 })

/-- A cell that is mutated by replacing what it publishes. -/
structure CopyOnWrite (C : Type) where
  published : Published C
  /-- How the cell copies its contents. -/
  copier : Copier C
  /-- How many writes were published. The word that tells it is this number modulo `2 ^ 64`. -/
  version : Nat

inductive Fault (E : Type) where
  | panicked (p : Panic)
  /-- It gave back an error. -/
  | rejected (error : E)

structure Written (C ε R : Type) where
  result : Except ε R
  cell : CopyOnWrite C
  supply : Supply

namespace CopyOnWrite

variable {C ε R E : Type}

def contents (cell : CopyOnWrite C) : C := cell.published.contents

/-- A cell around one copy of a value. -/
def withCopier (initial : C) (copier : Copier C) (s : Supply) :
    Except Panic (CopyOnWrite C) × Supply :=
  match copier.copy s initial with
  | (.error p, s) => (.error p, s)
  | (.ok c, s) =>
    let (published, s) := s.allocate c
    (.ok ⟨published, copier, 0⟩, s)

/-- A cell around a value, with plain copies. -/
def new (initial : C) (s : Supply) : CopyOnWrite C × Supply :=
  let (published, s) := s.allocate initial
  (⟨published, .plain, 0⟩, s)

/-- A copy of the contents, made with the copy function of the cell. -/
def copyCurrent (cell : CopyOnWrite C) (s : Supply) : Except Panic C × Supply :=
  cell.copier.copy s cell.contents

/-- A cell of its own around a copy of the contents, with the same copy function. -/
def clone (cell : CopyOnWrite C) (s : Supply) : Except Panic (CopyOnWrite C) × Supply :=
  withCopier cell.contents cell.copier s

/-- Publishes a value as a new allocation and counts it. -/
def publish (cell : CopyOnWrite C) (s : Supply) (c : C) : CopyOnWrite C × Supply :=
  let (published, s) := s.allocate c
  ({ cell with published, version := cell.version + 1 }, s)

/-- Copies, mutates the copy and publishes it. A failed copy is reported through `raise`. -/
def attempt (cell : CopyOnWrite C) (s : Supply) (raise : Panic → ε)
    (mutation : C → Except ε (R × C)) : Written C ε R :=
  match cell.copyCurrent s with
  | (.error p, s) => ⟨.error (raise p), cell, s⟩
  | (.ok working, s) =>
    match mutation working with
    | .error e => ⟨.error e, cell, s⟩
    | .ok (r, working) =>
      let (cell, s) := cell.publish s working
      ⟨.ok r, cell, s⟩

/-- A write whose mutation may panic. -/
def write (cell : CopyOnWrite C) (s : Supply) (mutation : C → Except Panic (R × C)) :
    Written C Panic R :=
  cell.attempt s id mutation

/-- A write whose mutation may panic or give back an error. -/
def tryWrite (cell : CopyOnWrite C) (s : Supply) (mutation : C → Except (Fault E) (R × C)) :
    Written C (Fault E) R :=
  cell.attempt s .panicked mutation

end CopyOnWrite

end SharedCells
