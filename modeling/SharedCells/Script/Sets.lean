import SharedCells.CopyOnWrite.Race
import SharedCells.CowSet
import SharedCells.Digest.Fingerprint
import SharedCells.Json.Document
import SharedCells.Script.Bump
import SharedCells.Script.Keep
import SharedCells.Script.Run
import SharedCells.Text.Describe

/-!
# Scripts over copy-on-write sets

The objects of such a script are sets over one kind of store, snapshots of them and iterators.

* `SetScript.run` answers a script: for each request the answer and, of every set, the version
  and the items. A `shown` function puts items in the order in which answers list them; the
  items of a store without an order are listed in ascending order.
-/

namespace SharedCells.Script

open Store

/-- How a set or a map of a script is made. -/
inductive Making where
  | empty
  /-- From a plain store, with plain copies. -/
  | plain
  /-- From a plain store, with a counted copy function that bumps what it copies. -/
  | bumping
  /-- By one write for each member, into a cell that then becomes the collection. -/
  | stepwise

/-- A request to a family of sets. -/
inductive SetRequest (α : Type) where
  | make (how : Making) (initial : List α)
  | fromJson (text : String)
  | clone (i : Nat)
  | size (i : Nat)
  | isEmpty (i : Nat)
  | contains (i : Nat) (a : α)
  | insert (i : Nat) (a : α)
  | remove (i : Nat) (a : α)
  | insertAll (i : Nat) (feed : Feed α)
  | removeAll (i : Nat) (feed : Feed α)
  | clear (i : Nat)
  | retain (i : Nat) (keep : Keep α α)
  | copies
  | equal (i j : Nat)
  | equalStore (i : Nat) (as : List α)
  | digest (i : Nat)
  | describe (i : Nat)
  | toJson (i : Nat)
  | items (i : Nat)
  | snapshot (i : Nat)
  | showSnapshot (s : Nat)
  | iter (i : Nat)
  | next (n : Nat)
  | nextBack (n : Nat)
  | rest (n : Nat)
  | remaining (n : Nat)
  /-- Threads that each insert the items of one list. -/
  | race (i : Nat) (parts : List (List α))

/-- The answer to such a request. -/
inductive SetAnswer (α : Type) where
  | done
  | set (i : Nat)
  | snapshot (s : Nat)
  | iter (n : Nat)
  | flag (b : Bool)
  | count (n : Nat)
  | item (a? : Option α)
  | items (as : List α)
  | retained (changed : Bool) (asked : List α)
  | text (s : String)
  | digest (d : UInt64)
  | panicked (p : Panic)
  | unreadable

/-- The objects of a script over sets. -/
structure SetScript (S α : Type) where
  supply : Supply
  sets : List (CowSet S)
  snapshots : List S
  iters : List (Snapshot α)

/-- How the sets of a script are shown. -/
structure SetDisplay (S α : Type) where
  /-- The items in the order in which answers list them. -/
  shown : List α → List α
  /-- The one-line text of a store. -/
  describe : S → String

namespace SetScript

variable {S α : Type} [SetStore S α] [BEq S] [LE α] [LT α] [DecidableLE α] [DecidableLT α]
  [DecidableEq α] [Bump α] [Json.Item α] [Digest.Fingerprint α]

/-- The predicate of a `retain` call; its state lists the items asked about, the last one
first. -/
def asking (keep : Keep α α) (asked : List α) (a : α) : Except Panic (Bool × List α) :=
  (keep.ask asked.length (some a) none).map (·, a :: asked)

/-- The copy function that bumps every item. -/
def bumping : Copier S := .custom fun _ w => .ok (SetStore.ofList ((SetStore.items w).map bump))

def made (supply : Supply) (initial : List α) : Making → Except Panic (CowSet S) × Supply
  | .empty =>
    let (c, supply) := CopyOnWrite.new SetStore.empty supply
    (.ok c, supply)
  | .bumping => CopyOnWrite.withCopier (SetStore.ofList initial) bumping supply
  | .plain | .stepwise =>
    let (c, supply) := CopyOnWrite.new (SetStore.ofList initial) supply
    (.ok c, supply)

/-- The state with a set that was made, or the panic of its making. -/
def entered (st : SetScript S α) :
    Except Panic (CowSet S) × Supply → SetAnswer α × SetScript S α
  | (.error p, supply) => (.panicked p, { st with supply })
  | (.ok c, supply) =>
    let (i, sets) := enter st.sets c
    (.set i, { st with supply, sets })

/-- The answer and the state after a write of a set. -/
def after {R : Type} (st : SetScript S α) (i : Nat) (w : Written S Panic R)
    (answer : R → SetAnswer α) : SetAnswer α × SetScript S α :=
  let st := { st with supply := w.supply, sets := st.sets.set i w.cell }
  match w.result with
  | .error p => (.panicked p, st)
  | .ok r => (answer r, st)

def step (display : SetDisplay S α) (st : SetScript S α) :
    SetRequest α → Option (SetAnswer α × SetScript S α)
  | .make how initial => some (st.entered (made st.supply initial how))
  | .fromJson text =>
    match Json.readDocument Json.readList text with
    | none => some (.unreadable, st)
    | some as => some (st.entered (made st.supply as .plain))
  | .clone i => do
    let c ← st.sets[i]?
    some (st.entered (c.clone st.supply))
  | .size i => do
    let c ← st.sets[i]?
    some (.count c.size, st)
  | .isEmpty i => do
    let c ← st.sets[i]?
    some (.flag c.isEmpty, st)
  | .contains i a => do
    let c ← st.sets[i]?
    some (.flag (c.contains a), st)
  | .insert i a => do
    let c ← st.sets[i]?
    some (st.after i (c.insert st.supply a) .flag)
  | .remove i a => do
    let c ← st.sets[i]?
    some (st.after i (c.remove st.supply a) .flag)
  | .insertAll i feed => do
    let c ← st.sets[i]?
    some (st.after i (c.insertAll st.supply feed) .flag)
  | .removeAll i feed => do
    let c ← st.sets[i]?
    some (st.after i (c.removeAll st.supply feed) .flag)
  | .clear i => do
    let c ← st.sets[i]?
    some (st.after i (c.clear st.supply) fun _ => .done)
  | .retain i keep => do
    let c ← st.sets[i]?
    some (st.after i (c.retain st.supply (asking keep) []) fun (changed, asked) =>
      .retained changed (display.shown asked.reverse))
  | .copies => some (.count st.supply.copies, st)
  | .equal i j => do
    let c ← st.sets[i]?
    let other ← st.sets[j]?
    some (.flag (c.contents == other.contents), st)
  | .equalStore i as => do
    let c ← st.sets[i]?
    some (.flag (c.contents == SetStore.ofList as), st)
  | .digest i => do
    let c ← st.sets[i]?
    some (.digest (Digest.fingerprint c.items), st)
  | .describe i => do
    let c ← st.sets[i]?
    some (.text (display.describe c.contents), st)
  | .toJson i => do
    let c ← st.sets[i]?
    some (.text (String.ofList (Json.writeList c.items)), st)
  | .items i => do
    let c ← st.sets[i]?
    some (.items (display.shown c.iter.items), st)
  | .snapshot i => do
    let c ← st.sets[i]?
    let (s, snapshots) := enter st.snapshots c.contents
    some (.snapshot s, { st with snapshots })
  | .showSnapshot s => do
    let w ← st.snapshots[s]?
    some (.items (display.shown (SetStore.items w)), st)
  | .iter i => do
    let c ← st.sets[i]?
    let (n, iters) := enter st.iters c.iter
    some (.iter n, { st with iters })
  | .next n => do
    let it ← st.iters[n]?
    let (a?, it) := it.next
    some (.item a?, { st with iters := st.iters.set n it })
  | .nextBack n => do
    let it ← st.iters[n]?
    let (a?, it) := it.nextBack
    some (.item a?, { st with iters := st.iters.set n it })
  | .rest n => do
    let it ← st.iters[n]?
    some (.items (display.shown it.items), { st with iters := st.iters.set n ⟨[]⟩ })
  | .remaining n => do
    let it ← st.iters[n]?
    some (.count it.size, st)
  | .race i parts => do
    let c ← st.sets[i]?
    let jobs := parts.map fun as => as.map fun a => fun w => some (SetStore.insert w a).1
    let (gaveUp, r) := (CopyOnWrite.Race.start c st.supply jobs).finish
    some (if gaveUp then .panicked threadPanic else .done,
      { st with supply := r.supply, sets := st.sets.set i r.cell })

/-- The version and the items of every set. -/
def view (display : SetDisplay S α) (st : SetScript S α) : List (Nat × List α) :=
  st.sets.map fun c => (c.version, display.shown c.items)

/-- Answers a script whose first set is given by how it is made. -/
def run (display : SetDisplay S α) (how : Making) (initial : List α)
    (requests : List (SetRequest α)) :
    Option (List (SetAnswer α × List (Nat × List α))) :=
  let start : SetScript S α := ⟨{}, [], [], []⟩
  runAll (fun st request =>
      (step display st request).map fun (answer, st) => ((answer, st.view display), st))
    (start.entered (made {} initial how)).2 requests

end SetScript

end SharedCells.Script
