import SharedCells.Descending
import SharedCells.Script.MapRequest

/-!
# How maps are shown

Answers list entries, items and questions in iteration order. A store without an order has none
that means anything; there they are listed in ascending order instead, by key where there is one
and else by value.

* `Ranked` orders the values that may have to be listed, floating-point values included.
* `MapDisplay.inOrder` and `MapDisplay.ranked` are the two ways.
-/

namespace SharedCells.Script

/-- Values that can be listed in ascending order. -/
class Ranked (α : Type) where
  /-- Whether a value may stand before another one. -/
  before : α → α → Bool

instance : Ranked Int64 := ⟨fun a b => decide (a ≤ b)⟩

instance : Ranked String := ⟨fun a b => decide (a ≤ b)⟩

instance {α : Type} [Ranked α] : Ranked (Descending α) :=
  ⟨fun a b => Ranked.before b.value a.value⟩

/-- The place of a floating-point value: negative values before positive ones, and zeros with
either sign apart. -/
def floatRank (x : Float) : UInt64 :=
  let bits := x.toBits
  if bits >>> 63 == 1 then ~~~bits else bits ||| ((1 : UInt64) <<< 63)

instance : Ranked Float := ⟨fun a b => decide (floatRank a ≤ floatRank b)⟩

/-- How the content of a map is put in order for an answer. -/
structure MapDisplay (K V : Type) where
  entries : List (K × V) → List (K × V)
  items : List (Item K V) → List (Item K V)
  asked : List (Asked K V) → List (Asked K V)

namespace MapDisplay

variable {K V : Type}

/-- Everything stays in the order in which it comes. -/
def inOrder : MapDisplay K V := ⟨id, id, id⟩

variable [Ranked K] [Ranked V]

/-- Whether an item may stand before another one. -/
def itemBefore : Item K V → Item K V → Bool
  | .key k, .key k' => Ranked.before k k'
  | .entry k _, .entry k' _ => Ranked.before k k'
  | .value v, .value v' => Ranked.before v v'
  | _, _ => true

/-- Whether a question may stand before another one. -/
def askedBefore (a b : Asked K V) : Bool :=
  match a.key?, b.key?, a.value?, b.value? with
  | some k, some k', _, _ => Ranked.before k k'
  | _, _, some v, some v' => Ranked.before v v'
  | _, _, _, _ => true

/-- Everything is put in ascending order. -/
def ranked : MapDisplay K V where
  entries es := es.mergeSort fun e e' => Ranked.before e.1 e'.1
  items is := is.mergeSort itemBefore
  asked qs := qs.mergeSort askedBefore

end MapDisplay

end SharedCells.Script
