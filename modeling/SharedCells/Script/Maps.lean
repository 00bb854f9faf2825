import SharedCells.CopyOnWrite.Race
import SharedCells.CowMap.Cursor
import SharedCells.CowMap.EntrySet
import SharedCells.CowMap.KeySet
import SharedCells.CowMap.Values
import SharedCells.Json.Document
import SharedCells.Script.Bump
import SharedCells.Script.MapDisplay
import SharedCells.Script.Run
import SharedCells.Store.Sorted
import SharedCells.Store.Unordered

/-!
# Scripts over copy-on-write maps

* `MapScript.step` answers a request to a map over any kind of store.
* `MapScript.run` answers a script: for each request the answer and, of every map, the version
  and the entries.
-/

namespace SharedCells.Script

open Store

/-- A cursor of a script, with the map that it was made from. -/
structure Walk (K V : Type) where
  map : Nat
  cursor : Cursor K V (Item K V)

/-- The objects of a script over maps. -/
structure MapScript (M K V : Type) where
  supply : Supply
  maps : List (CowMap M)
  snapshots : List M
  iters : List (Snapshot (Item K V))
  cursors : List (Walk K V)

namespace MapScript

variable {M K V : Type}

/-! ## New objects -/

/-- The state with a new iterator. -/
def withIter (st : MapScript M K V) (items : List (Item K V)) :
    MapAnswer K V × MapScript M K V :=
  let (n, iters) := enter st.iters ⟨items⟩
  (.made .iter n, { st with iters })

/-- The state with a new cursor over a map. -/
def withCursor (st : MapScript M K V) (i : Nat) (entries : List (K × V))
    (project : K → V → Item K V) : MapAnswer K V × MapScript M K V :=
  let (n, cursors) := enter st.cursors ⟨i, .ofEntries entries project⟩
  (.made .cursor n, { st with cursors })

/-- The state with a map that was made, or the panic of its making. -/
def entered (st : MapScript M K V) :
    Except Panic (CowMap M) × Supply → MapAnswer K V × MapScript M K V
  | (.error p, supply) => (.panicked p, { st with supply })
  | (.ok m, supply) =>
    let (i, maps) := enter st.maps m
    (.made .map i, { st with supply, maps })

/-! ## Writes -/

/-- The state after a write of a map. -/
def wrote {ε R : Type} (st : MapScript M K V) (i : Nat) (w : Written M ε R) : MapScript M K V :=
  { st with supply := w.supply, maps := st.maps.set i w.cell }

/-- The answer and the state after a write that may panic. -/
def after {R : Type} (st : MapScript M K V) (i : Nat) (w : Written M Panic R)
    (answer : R → MapAnswer K V) : MapAnswer K V × MapScript M K V :=
  match w.result with
  | .error p => (.panicked p, st.wrote i w)
  | .ok r => (answer r, st.wrote i w)

/-- The answer and the state after a write that may panic or be refused. -/
def afterFallible {R : Type} (st : MapScript M K V) (i : Nat) (w : Written M (Fault ViewError) R)
    (answer : R → MapAnswer K V) : MapAnswer K V × MapScript M K V :=
  match w.result with
  | .error (.panicked p) => (.panicked p, st.wrote i w)
  | .error (.rejected e) => (.refused e, st.wrote i w)
  | .ok r => (answer r, st.wrote i w)

/-- The answer to a request that a view refuses or grants. -/
def granted : Except ViewError Bool → MapAnswer K V
  | .error e => .refused e
  | .ok b => .flag b

/-! ## What needs little of the elements -/

/-- The version and the entries of every map. -/
def view [MapStore M K V] (display : MapDisplay K V) (st : MapScript M K V) :
    List (Nat × List (K × V)) :=
  st.maps.map fun m => (m.version, display.entries m.entries)

/-- Answers a request to an iterator. -/
def onIter [Text.Describe K] [Text.Describe V] (display : MapDisplay K V)
    (st : MapScript M K V) (n : Nat) (it : Snapshot (Item K V)) :
    OnIter → MapAnswer K V × MapScript M K V
  | .next =>
    let (item?, it) := it.next
    (.item item?, { st with iters := st.iters.set n it })
  | .nextBack =>
    let (item?, it) := it.nextBack
    (.item item?, { st with iters := st.iters.set n it })
  | .size => (.length it.size, st)
  | .rest => (.items (display.items it.items), { st with iters := st.iters.set n ⟨[]⟩ })
  | .restBackwards =>
    (.items (display.items it.items.reverse), { st with iters := st.iters.set n ⟨[]⟩ })
  | .clone => st.withIter it.items
  | .describe =>
    let items := Text.wrapped "IntoIter" (Text.describe it.items)
    (.text (Text.record "SnapshotIter" [("items", items)]), st)

/-! ## Requests -/

variable [MapStore M K V] [BEq M] [LE K] [LT K] [DecidableLE K] [DecidableLT K] [DecidableEq K]
  [Std.IsLinearOrder K] [Std.LawfulOrderLT K] [BEq V] [Bump V] [Json.Key K] [Json.Item V]
  [Digest.Fingerprint K] [Digest.Fingerprint V] [Text.Describe K] [Text.Describe V]

/-- The copy function that bumps every value. -/
def bumping : Copier M :=
  .custom fun _ w => .ok (MapStore.ofList ((MapStore.entries w).map fun (k, v) => (k, bump v)))

def made (supply : Supply) (initial : List (K × V)) : Making → Except Panic (CowMap M) × Supply
  | .empty =>
    let (m, supply) := CopyOnWrite.new MapStore.empty supply
    (.ok m, supply)
  | .plain =>
    let (m, supply) := CopyOnWrite.new (MapStore.ofList initial) supply
    (.ok m, supply)
  | .bumping => CopyOnWrite.withCopier (MapStore.ofList initial) bumping supply
  | .stepwise =>
    let (m, supply) := initial.foldl (fun (m, supply) (k, v) =>
      let w := CowMap.put m supply k v
      (w.cell, w.supply)) (CopyOnWrite.new (MapStore.empty : M) supply)
    (.ok m, supply)

/-- The predicate of a `retain` call; its state lists the questions, the last one first. -/
def asking (keep : Keep K V) (seen? : Option (Nat × Nat)) (asked : List (Asked K V))
    (key? : Option K) (value? : Option V) : Except Panic (Bool × List (Asked K V)) :=
  (keep.ask asked.length key? value?).map (·, ⟨key?, value?, seen?⟩ :: asked)

/-- The size and the version of a map. -/
def stateOf (m : CowMap M) : Nat × Nat := (m.size, m.version)

/-- The answer of a `retain` call. -/
def retainAnswer (display : MapDisplay K V) : Bool × List (Asked K V) → MapAnswer K V
  | (changed, asked) => .retained changed (display.asked asked.reverse)

/-- Answers a request to a map. -/
def onMap (display : MapDisplay K V) (st : MapScript M K V) :
    OnMap K V → Option (MapAnswer K V × MapScript M K V)
  | .make how initial => some (st.entered (made st.supply initial how))
  | .fromJson text =>
    match Json.readDocument Json.readObject text with
    | none => some (.unreadable, st)
    | some es => some (st.entered (made st.supply es .plain))
  | .clone i => do
    let m ← st.maps[i]?
    some (st.entered (m.clone st.supply))
  | .size i => do
    let m ← st.maps[i]?
    some (.count m.size, st)
  | .isEmpty i => do
    let m ← st.maps[i]?
    some (.flag m.isEmpty, st)
  | .get i k => do
    let m ← st.maps[i]?
    some (.item ((m.get? k).map .value), st)
  | .contains i k => do
    let m ← st.maps[i]?
    some (.flag (m.contains k), st)
  | .put i k v => do
    let m ← st.maps[i]?
    some (st.after i (m.put st.supply k v) fun previous => .item (previous.map .value))
  | .remove i k => do
    let m ← st.maps[i]?
    some (st.after i (m.remove st.supply k) fun previous => .item (previous.map .value))
  | .putAll i feed => do
    let m ← st.maps[i]?
    some (st.after i (m.putAll st.supply feed) fun _ =>
      .yielded (feed.items.map fun _ => stateOf m))
  | .clear i => do
    let m ← st.maps[i]?
    some (st.after i (m.clear st.supply) fun _ => .done)
  | .retain i keep observe => do
    let m ← st.maps[i]?
    let seen? := if observe then some (stateOf m) else none
    some (st.after i
      (m.retain st.supply (fun asked (k, v) => asking keep seen? asked (some k) (some v)) [])
      (retainAnswer display))
  | .copies => some (.count st.supply.copies, st)
  | .equal i j => do
    let m ← st.maps[i]?
    let other ← st.maps[j]?
    some (.flag (m.contents == other.contents), st)
  | .equalStore i es => do
    let m ← st.maps[i]?
    some (.flag (m.contents == MapStore.ofList es), st)
  | .digest i => do
    let m ← st.maps[i]?
    some (.digest (Digest.fingerprint m.entries), st)
  | .describe i => do
    let m ← st.maps[i]?
    some (.text (Text.describeMap m.entries), st)
  | .toJson i => do
    let m ← st.maps[i]?
    some (.text (String.ofList (Json.writeObject m.entries)), st)
  | .entries i => do
    let m ← st.maps[i]?
    some (.items ((display.entries m.iter.items).map Item.ofEntry), st)
  | .iter i => do
    let m ← st.maps[i]?
    some (st.withIter (m.iter.items.map Item.ofEntry))
  | .cursor i => do
    let m ← st.maps[i]?
    some (st.withCursor i m.entries .entry)
  | .snapshot i => do
    let m ← st.maps[i]?
    let (s, snapshots) := enter st.snapshots m.contents
    some (.made .snapshot s, { st with snapshots })
  | .showSnapshot s => do
    let w ← st.snapshots[s]?
    some (.items ((display.entries (MapStore.entries w)).map Item.ofEntry), st)
  | .race i parts => do
    let m ← st.maps[i]?
    let jobs := parts.map fun es => es.map fun (k, v) => fun w => some (MapStore.insert w k v).1
    let (gaveUp, r) := (CopyOnWrite.Race.start m st.supply jobs).finish
    some (if gaveUp then .panicked threadPanic else .done,
      { st with supply := r.supply, maps := st.maps.set i r.cell })

/-- Answers a request to the keys of a map. -/
def onKeys (display : MapDisplay K V) (st : MapScript M K V) (i : Nat) (m : CowMap M) :
    OnKeys K V → Option (MapAnswer K V × MapScript M K V)
  | .size => some (.count (KeySet.size m), st)
  | .isEmpty => some (.flag (KeySet.isEmpty m), st)
  | .contains k => some (.flag (KeySet.contains m k), st)
  | .remove k => some (st.after i (KeySet.remove m st.supply k) .flag)
  | .removeAll feed => some (st.after i (KeySet.removeAll m st.supply feed) .flag)
  | .retain keep observe =>
    let seen? := if observe then some (stateOf m) else none
    some (st.after i
      (KeySet.retain m st.supply (fun asked k => asking keep seen? asked (some k) none) [])
      (retainAnswer display))
  | .clear => some (st.after i (KeySet.clear m st.supply) fun _ => .done)
  | .insert k => some (granted (KeySet.insert m k), st)
  | .insertAll feed => some (granted (KeySet.insertAll m feed), st)
  | .equal j => do
    let other ← st.maps[j]?
    some (.flag (KeySet.equal m other), st)
  | .equalUnordered ks =>
    some (.flag (KeySet.equalsSet m (SetStore.ofList ks : UnorderedSet K)), st)
  | .equalSorted ks => some (.flag (KeySet.equalsSet m (SetStore.ofList ks : SortedSet K)), st)
  | .digest => some (.digest (Digest.Sip.digest (KeySet.bytes m)), st)
  | .describe => some (.text (Text.describeSet (KeySet.iter m).items), st)
  | .iter => some (st.withIter ((KeySet.iter m).items.map .key))
  | .cursor => some (st.withCursor i m.entries fun k _ => .key k)

/-- Answers a request to the values of a map. -/
def onValues (display : MapDisplay K V) (st : MapScript M K V) (i : Nat) (m : CowMap M) :
    OnValues K V → Option (MapAnswer K V × MapScript M K V)
  | .size => some (.count (Values.size m), st)
  | .isEmpty => some (.flag (Values.isEmpty m), st)
  | .contains v => some (.flag (Values.contains m v), st)
  | .remove v => some (st.after i (Values.remove m st.supply v) .flag)
  | .removeAll vs => some (st.after i (Values.removeAll m st.supply vs) .flag)
  | .retain keep observe =>
    let seen? := if observe then some (stateOf m) else none
    some (st.after i
      (Values.retain m st.supply (fun asked v => asking keep seen? asked none (some v)) [])
      (retainAnswer display))
  | .clear => some (st.after i (Values.clear m st.supply) fun _ => .done)
  | .insert v => some (granted (Values.insert m v), st)
  | .insertAll feed => some (granted (Values.insertAll m feed), st)
  | .describe => some (.text (Text.describe (Values.iter m).items), st)
  | .iter => some (st.withIter ((Values.iter m).items.map .value))
  | .cursor => some (st.withCursor i m.entries fun _ v => .value v)

/-- Answers a request to the entries of a map. -/
def onEntries (display : MapDisplay K V) (st : MapScript M K V) (i : Nat) (m : CowMap M) :
    OnEntries K V → Option (MapAnswer K V × MapScript M K V)
  | .size => some (.count (EntrySet.size m), st)
  | .isEmpty => some (.flag (EntrySet.isEmpty m), st)
  | .contains k v => some (.flag (EntrySet.contains m k v), st)
  | .remove k v => some (st.after i (EntrySet.remove m st.supply k v) .flag)
  | .removeAll es => some (st.after i (EntrySet.removeAll m st.supply es) .flag)
  | .retain keep observe =>
    let seen? := if observe then some (stateOf m) else none
    some (st.after i
      (EntrySet.retain m st.supply
        (fun asked (k, v) => asking keep seen? asked (some k) (some v)) [])
      (retainAnswer display))
  | .clear => some (st.after i (EntrySet.clear m st.supply) fun _ => .done)
  | .insert k v => some (granted (EntrySet.insert m (k, v)), st)
  | .insertAll feed => some (granted (EntrySet.insertAll m feed), st)
  | .equal j => do
    let other ← st.maps[j]?
    some (.flag (EntrySet.equal m other), st)
  | .equalStore es => some (.flag (EntrySet.equalsStore m (MapStore.ofList es : M)), st)
  | .digest => some (.digest (Digest.Sip.digest (EntrySet.bytes m)), st)
  | .describe => some (.text (Text.describeSet (EntrySet.iter m).items), st)
  | .iter => some (st.withIter ((EntrySet.iter m).items.map Item.ofEntry))
  | .cursor => some (st.withCursor i m.entries .entry)

/-- Goes through the items to come and removes those that are chosen. -/
def sweep (isChosen : Item K V → Bool) :
    Nat → Cursor K V (Item K V) → CowMap M → Supply →
      Except Panic (List (Swept K V)) × Cursor K V (Item K V) × CowMap M × Supply
  | 0, c, m, s => (.ok [], c, m, s)
  | left + 1, c, m, s =>
    match c.next with
    | (none, c) => (.ok [], c, m, s)
    | (some item, c) =>
      if isChosen item then
        let (c, w) := c.remove m s
        match w.result with
        | .error (.panicked p) => (.error p, c, w.cell, w.supply)
        | .error (.rejected e) =>
          let (rest, after) := sweep isChosen left c w.cell w.supply
          (rest.map (.refused e :: ·), after)
        | .ok _ =>
          let (rest, after) := sweep isChosen left c w.cell w.supply
          (rest.map (.removed item :: ·), after)
      else
        let (rest, after) := sweep isChosen left c m s
        (rest.map (.kept item :: ·), after)

/-- Answers a request to a cursor. -/
def onCursor (st : MapScript M K V) (n : Nat) (walk : Walk K V) (m : CowMap M) :
    OnCursor K V → MapAnswer K V × MapScript M K V
  | .next =>
    let (item?, cursor) := walk.cursor.next
    (.item item?, { st with cursors := st.cursors.set n { walk with cursor } })
  | .size => (.length walk.cursor.size, st)
  | .remove =>
    let (cursor, w) := walk.cursor.remove m st.supply
    { st with cursors := st.cursors.set n { walk with cursor } }.afterFallible walk.map w
      fun _ => .done
  | .sweep chosen =>
    let (result, cursor, m, supply) :=
      sweep (fun item => chosen.any item.same) walk.cursor.size walk.cursor m st.supply
    let st := { st with
      supply
      maps := st.maps.set walk.map m
      cursors := st.cursors.set n { walk with cursor } }
    match result with
    | .error p => (.panicked p, st)
    | .ok items => (.swept items, st)

def step (display : MapDisplay K V) (st : MapScript M K V) :
    MapRequest K V → Option (MapAnswer K V × MapScript M K V)
  | .map request => st.onMap display request
  | .keys i request => do
    let m ← st.maps[i]?
    st.onKeys display i m request
  | .values i request => do
    let m ← st.maps[i]?
    st.onValues display i m request
  | .entries i request => do
    let m ← st.maps[i]?
    st.onEntries display i m request
  | .iter n request => do
    let it ← st.iters[n]?
    some (st.onIter display n it request)
  | .cursor n request => do
    let walk ← st.cursors[n]?
    let m ← st.maps[walk.map]?
    some (st.onCursor n walk m request)

/-- The state in which a script starts, with a map that is given by how it is made. -/
def start (how : Making) (initial : List (K × V)) : MapScript M K V :=
  (entered ⟨{}, [], [], [], []⟩ (made {} initial how)).2

/-- Answers a script whose first map is given by how it is made. -/
def run (display : MapDisplay K V) (how : Making) (initial : List (K × V))
    (requests : List (MapRequest K V)) :
    Option (List (MapAnswer K V × List (Nat × List (K × V)))) :=
  let first : MapScript M K V := start how initial
  runAll (fun st request =>
    (step display st request).map fun (answer, st) => ((answer, st.view display), st))
    first requests

end MapScript

end SharedCells.Script
