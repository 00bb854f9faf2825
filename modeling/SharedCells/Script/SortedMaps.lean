import SharedCells.CowMap.SubMap
import SharedCells.Script.Maps

/-!
# Scripts over sorted maps

A script over maps with a sorted store has sub-maps besides. A sub-map is a range together with
the map that it is a part of; a part of a sub-map is a part of the same map.

* `SortedScript.run` answers a script.
-/

namespace SharedCells.Script

open Store

structure Excerpt (K : Type) where
  map : Nat
  range : KeyRange K

/-- The objects of a script over sorted maps. -/
structure SortedScript (K V : Type) [LT K] where
  base : MapScript (SortedMap K V) K V
  parts : List (Excerpt K)

namespace SortedScript

variable {K V : Type} [LE K] [LT K] [DecidableLE K] [DecidableLT K] [DecidableEq K]
  [Std.IsLinearOrder K] [Std.LawfulOrderLT K] [BEq V] [Bump V] [Json.Key K] [Json.Item V]
  [Digest.Fingerprint K] [Digest.Fingerprint V] [Text.Describe K] [Text.Describe V]

/-- The part of a whole map. -/
def partOf : Part K → Except ViewError (KeyRange K)
  | .head stop => .ok (SubMap.headOf stop)
  | .tail start => .ok (SubMap.tailOf start)
  | .between start stop => SubMap.between start stop
  | .range lower upper => KeyRange.ofBounds lower upper

def partWithin (r : KeyRange K) : Part K → Except ViewError (KeyRange K)
  | .head stop => SubMap.headWithin r stop
  | .tail start => SubMap.tailWithin r start
  | .between start stop => SubMap.betweenWithin r start stop
  | .range lower upper => r.narrow lower upper

/-- The state with a sub-map that was made, or the refusal. -/
def entered (st : SortedScript K V) (map : Nat) :
    Except ViewError (KeyRange K) → MapAnswer K V × SortedScript K V
  | .error e => (.refused e, st)
  | .ok range =>
    let (n, parts) := enter st.parts ⟨map, range⟩
    (.part n range, { st with parts })

/-- An answer with the other objects changed. -/
def lift (st : SortedScript K V) (result : MapAnswer K V × MapScript (SortedMap K V) K V) :
    MapAnswer K V × SortedScript K V :=
  (result.1, { st with base := result.2 })

/-- Answers a request to a sub-map. -/
def onPart (st : SortedScript K V) (part : Excerpt K) (m : CowMap (SortedMap K V)) :
    OnPart K V → Option (MapAnswer K V × SortedScript K V)
  | .get k => some (.item ((SubMap.get? part.range m k).map .value), st)
  | .contains k => some (.flag (SubMap.contains part.range m k), st)
  | .remove k =>
    some (st.lift (st.base.after part.map (SubMap.remove part.range m st.base.supply k)
      fun previous => .item (previous.map .value)))
  | .inRange k => some (.flag (part.range.contains k), st)
  | .size => some (.count (SubMap.size part.range m), st)
  | .isEmpty => some (.flag (SubMap.isEmpty part.range m), st)
  | .firstKey => some (.item ((SubMap.firstKey part.range m).map .key), st)
  | .lastKey => some (.item ((SubMap.lastKey part.range m).map .key), st)
  | .entries => some (.items ((SubMap.iter part.range m).items.map Item.ofEntry), st)
  | .iter => some (st.lift (st.base.withIter ((SubMap.iter part.range m).items.map Item.ofEntry)))
  | .keys => some (st.lift (st.base.withIter ((SubMap.keys part.range m).items.map .key)))
  | .values => some (st.lift (st.base.withIter ((SubMap.values part.range m).items.map .value)))
  | .cursor =>
    some (st.lift (st.base.withCursor part.map (SubMap.entries part.range m) .entry))
  | .put k v =>
    some (st.lift (st.base.afterFallible part.map (SubMap.put part.range m st.base.supply k v)
      fun previous => .item (previous.map .value)))
  | .removeAll ks =>
    some (st.lift (st.base.after part.map
      (SubMap.removeAll part.range m st.base.supply (.ofList ks)) .flag))
  | .clear =>
    some (st.lift (st.base.after part.map (SubMap.clear part.range m st.base.supply)
      fun _ => .done))
  | .retain keep observed => do
    let seen? ← match observed with
      | none => some none
      | some i => (st.base.maps[i]?).map fun m => some (MapScript.stateOf m)
    let ask := fun asked (e : K × V) => MapScript.asking keep seen? asked (some e.1) (some e.2)
    some (st.lift (st.base.after part.map (SubMap.retain part.range m st.base.supply ask [])
      (MapScript.retainAnswer .inOrder)))
  | .equal j => do
    let other ← st.parts[j]?
    let m' ← st.base.maps[other.map]?
    some (.flag (SubMap.equal part.range m other.range m'), st)
  | .equalStore es =>
    some (.flag (SubMap.equalsStore part.range m (MapStore.ofList es)), st)
  | .describe => some (.text (Text.describeMap (SubMap.entries part.range m)), st)
  | .clone => some (st.entered part.map (.ok part.range))
  | .part p => some (st.entered part.map (partWithin part.range p))

def step (st : SortedScript K V) :
    SortedRequest K V → Option (MapAnswer K V × SortedScript K V)
  | .plain request => (st.base.step .inOrder request).map st.lift
  | .firstKey i => do
    let m ← st.base.maps[i]?
    some (.item (m.firstKey.map .key), st)
  | .lastKey i => do
    let m ← st.base.maps[i]?
    some (.item (m.lastKey.map .key), st)
  | .firstEntry i => do
    let m ← st.base.maps[i]?
    some (.item (m.firstEntry.map Item.ofEntry), st)
  | .lastEntry i => do
    let m ← st.base.maps[i]?
    some (.item (m.lastEntry.map Item.ofEntry), st)
  | .part i p => (st.base.maps[i]?).map fun _ => st.entered i (partOf p)
  | .onPart n request => do
    let part ← st.parts[n]?
    let m ← st.base.maps[part.map]?
    st.onPart part m request

/-- Answers a script whose first map is given by how it is made. -/
def run (how : Making) (initial : List (K × V)) (requests : List (SortedRequest K V)) :
    Option (List (MapAnswer K V × List (Nat × List (K × V)))) :=
  runAll (fun st request =>
    (step st request).map fun (answer, st) => ((answer, st.base.view .inOrder), st))
    ⟨MapScript.start how initial, []⟩ requests

end SortedScript

end SharedCells.Script
