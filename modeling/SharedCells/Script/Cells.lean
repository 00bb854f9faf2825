import SharedCells.CopyOnWrite.Race
import SharedCells.Digest.Fingerprint
import SharedCells.Json.Document
import SharedCells.Script.Bump
import SharedCells.Script.Run
import SharedCells.Text.Describe

/-!
# Scripts over copy-on-write cells

The objects of such a script are cells and snapshots of them. Cells hold a sequence, a list of
integers or a text, and writes are lists of `Mutation`s.

* `Sequence` says how the mutations act on what a cell holds.
* `CellScript.run` answers a script: for each request the answer and, of every cell, the version
  and the contents.
-/

namespace SharedCells.Script

/-- A change of a working copy. -/
inductive Mutation (α : Type) where
  | push (a : α)
  | pop
  | clear
  | reverse
  | sort

/-- Sequences that a cell may hold, with the values that are put in and taken out. -/
class Sequence (C : Type) (α : outParam Type) where
  /-- Puts a value at the end. -/
  push : C → α → C
  pop : C → Option α × C
  empty : C
  /-- The sequence backwards. -/
  reverse : C → C
  /-- The members in ascending order. -/
  sort : C → C

/-- Takes the last member of a list. -/
def popLast {α : Type} (as : List α) : Option α × List α := (as.getLast?, as.dropLast)

instance : Sequence (List Int64) Int64 where
  push ns n := ns ++ [n]
  pop := popLast
  empty := []
  reverse := List.reverse
  sort ns := ns.mergeSort fun a b => decide (a ≤ b)

instance : Sequence String String where
  push s t := s ++ t
  pop s :=
    let (c, cs) := popLast s.toList
    (c.map String.singleton, String.ofList cs)
  empty := ""
  reverse s := String.ofList s.toList.reverse
  sort s := String.ofList (s.toList.mergeSort fun a b => decide (a ≤ b))

namespace Mutation

variable {C α : Type} [Sequence C α]

/-- What a mutation takes out, and what it leaves. -/
def apply (c : C) : Mutation α → Option α × C
  | push a => (none, Sequence.push c a)
  | pop => Sequence.pop c
  | clear => (none, Sequence.empty)
  | reverse => (none, Sequence.reverse c)
  | sort => (none, Sequence.sort c)

def applyAll (c : C) : List (Mutation α) → List (Option α) × C
  | [] => ([], c)
  | m :: ms =>
    let (out, c) := m.apply c
    let (outs, c) := applyAll c ms
    (out :: outs, c)

end Mutation

/-- How a cell of a script copies. -/
inductive CopyRule where
  /-- Plainly. -/
  | plain
  /-- By a counted function, which may change the copy and may panic at one count. -/
  | counted (bumps : Bool) (panicAt : Option Nat)

/-- The copy function that a rule describes. -/
def CopyRule.copier {C : Type} [Bump C] : CopyRule → Copier C
  | plain => .plain
  | counted bumps panicAt =>
    .custom fun count c =>
      if panicAt = some count then .error ⟨"copier panic"⟩
      else .ok (if bumps then bump c else c)

/-- A request to a family of cells. -/
inductive CellRequest (C α : Type) where
  | make (initial : C) (rule : CopyRule)
  | fromJson (text : String)
  | clone (i : Nat)
  /-- A write, which may look at the published state after its mutations and may panic then. -/
  | write (i : Nat) (mutations : List (Mutation α)) (observe panics : Bool)
  /-- A write that gives back an error after its mutations, if one is named. -/
  | tryWrite (i : Nat) (mutations : List (Mutation α)) (failure : Option String)
  | read (i : Nat)
  | copyCurrent (i : Nat)
  | snapshot (i : Nat)
  | showSnapshot (s : Nat)
  | sameSnapshot (i s : Nat)
  | copies
  | equal (i j : Nat)
  | equalValue (i : Nat) (c : C)
  | digest (i : Nat)
  | describe (i : Nat)
  | toJson (i : Nat)
  /-- Threads that each make the same write a number of times. -/
  | race (i : Nat) (threads times : Nat) (mutations : List (Mutation α))

/-- The answer to such a request. -/
inductive CellAnswer (C α : Type) where
  | done
  | cell (i : Nat)
  | snapshot (s : Nat)
  /-- What the mutations took out, and the state seen from inside the write. -/
  | written (out : List (Option α)) (seen : Option (C × Nat))
  | accepted (out : List (Option α))
  | rejected (error : String)
  | panicked (p : Panic)
  | contents (c : C)
  | flag (b : Bool)
  | count (n : Nat)
  | text (s : String)
  | digest (d : UInt64)
  | unreadable

/-- The objects of a script over cells. -/
structure CellScript (C : Type) where
  supply : Supply
  cells : List (CopyOnWrite C)
  snapshots : List (Published C)

namespace CellScript

variable {C α : Type} [Sequence C α] [Bump C] [BEq C] [Text.Describe C] [Digest.Fingerprint C]

/-- The state with a cell that was made, or the panic of its making. -/
def entered (st : CellScript C) :
    Except Panic (CopyOnWrite C) × Supply → CellAnswer C α × CellScript C
  | (.error p, supply) => (.panicked p, { st with supply })
  | (.ok cell, supply) =>
    let (i, cells) := enter st.cells cell
    (.cell i, { st with supply, cells })

/-- The state after a write of a cell. -/
def after {ε R : Type} (st : CellScript C) (i : Nat) (w : Written C ε R) : CellScript C :=
  { st with supply := w.supply, cells := st.cells.set i w.cell }

def step (json : Json.Reader C) (written : C → List Char) (st : CellScript C) :
    CellRequest C α → Option (CellAnswer C α × CellScript C)
  | .make initial rule => some (st.entered (CopyOnWrite.withCopier initial rule.copier st.supply))
  | .fromJson text =>
    match Json.readDocument json text with
    | none => some (.unreadable, st)
    | some c =>
      let (cell, supply) := CopyOnWrite.new c st.supply
      some (st.entered (.ok cell, supply))
  | .clone i => do
    let cell ← st.cells[i]?
    some (st.entered (cell.clone st.supply))
  | .write i mutations observe panics => do
    let cell ← st.cells[i]?
    let w := cell.write st.supply fun c =>
      if panics then .error ⟨"mutation panic"⟩ else .ok (Mutation.applyAll c mutations)
    let answer := match w.result with
      | .error p => .panicked p
      | .ok out => .written out (if observe then some (cell.contents, cell.version) else none)
    some (answer, st.after i w)
  | .tryWrite i mutations failure => do
    let cell ← st.cells[i]?
    let w := cell.tryWrite st.supply fun c =>
      match failure with
      | some e => .error (.rejected e)
      | none => .ok (Mutation.applyAll c mutations)
    let answer := match w.result with
      | .error (.panicked p) => .panicked p
      | .error (.rejected e) => .rejected e
      | .ok out => .accepted out
    some (answer, st.after i w)
  | .read i => do
    let cell ← st.cells[i]?
    some (.contents cell.contents, st)
  | .copyCurrent i => do
    let cell ← st.cells[i]?
    match cell.copyCurrent st.supply with
    | (.error p, supply) => some (.panicked p, { st with supply })
    | (.ok c, supply) => some (.contents c, { st with supply })
  | .snapshot i => do
    let cell ← st.cells[i]?
    let (s, snapshots) := enter st.snapshots cell.published
    some (.snapshot s, { st with snapshots })
  | .showSnapshot s => do
    let snapshot ← st.snapshots[s]?
    some (.contents snapshot.contents, st)
  | .sameSnapshot i s => do
    let cell ← st.cells[i]?
    let snapshot ← st.snapshots[s]?
    some (.flag (snapshot.address == cell.published.address), st)
  | .copies => some (.count st.supply.copies, st)
  | .equal i j => do
    let cell ← st.cells[i]?
    let other ← st.cells[j]?
    some (.flag (cell.contents == other.contents), st)
  | .equalValue i c => do
    let cell ← st.cells[i]?
    some (.flag (cell.contents == c), st)
  | .digest i => do
    let cell ← st.cells[i]?
    some (.digest (Digest.fingerprint cell.contents), st)
  | .describe i => do
    let cell ← st.cells[i]?
    some (.text (Text.wrapped "CopyOnWrite" (Text.describe cell.contents)), st)
  | .toJson i => do
    let cell ← st.cells[i]?
    some (.text (String.ofList (written cell.contents)), st)
  | .race i threads times mutations => do
    let cell ← st.cells[i]?
    let job : CopyOnWrite.Job C := fun c => some (Mutation.applyAll c mutations).2
    let (gaveUp, r) := (CopyOnWrite.Race.start cell st.supply
      (List.replicate threads (List.replicate times job))).finish
    some (if gaveUp then .panicked threadPanic else .done,
      { st with supply := r.supply, cells := st.cells.set i r.cell })

/-- The version and the contents of every cell. -/
def view (st : CellScript C) : List (Nat × C) := st.cells.map fun c => (c.version, c.contents)

/-- Answers a script whose first cell is given; without that cell there is no script. -/
def run (json : Json.Reader C) (written : C → List Char) (initial : C) (rule : CopyRule)
    (requests : List (CellRequest C α)) :
    Except Panic (Option (List (CellAnswer C α × List (Nat × C)))) :=
  match CopyOnWrite.withCopier initial rule.copier {} with
  | (.error p, _) => .error p
  | (.ok cell, supply) =>
    .ok (runAll (fun st request =>
      (step json written st request).map fun (answer, st) => ((answer, st.view), st))
      ⟨supply, [cell], []⟩ requests)

end CellScript

end SharedCells.Script
