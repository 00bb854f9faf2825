import SharedCells.ViewError

/-!
# Key ranges

A `KeyRange` is an interval of keys: each side is inclusive, exclusive or unbounded.

* `KeyRange.ofBounds` builds a range and refuses inverted bounds.
* `KeyRange.contains` decides membership; `KeyRange.isEmpty` compares the two bound keys only.
* `KeyRange.narrow` restricts a range. A requested bound has to be admitted by the range: an
  inclusive one has to lie in it, an exclusive one in its closure. An unbounded side keeps the
  bound of the outer range.
* `Bound.empties` is the emptiness test that guards a scan, and `Bound.Sliceable` says which
  pairs of bounds a scan may start from. They are stated apart, each by its own cases.
-/

namespace SharedCells

/-- One end of an interval of keys. -/
inductive Bound (K : Type) where
  /-- The key belongs to the interval. -/
  | included (key : K)
  /-- The interval comes up to the key but leaves it out. -/
  | excluded (key : K)
  /-- The interval has no end on this side. -/
  | unbounded
deriving DecidableEq

namespace Bound

variable {K : Type}

/-- The key of a bound, if it has one. -/
def key? : Bound K → Option K
  | included k | excluded k => some k
  | unbounded => none

/-- The bound with its own key let in. -/
def closed : Bound K → Bound K
  | included k | excluded k => included k
  | unbounded => unbounded

/-- The first bound, or the second where the first has no end. -/
def orElse : Bound K → Bound K → Bound K
  | unbounded, outer => outer
  | bound, _ => bound

variable [LE K] [LT K] [DecidableLE K] [DecidableLT K]

/-- Whether a key lies on the inner side of a lower bound. -/
def below : Bound K → K → Bool
  | included low, k => decide (low ≤ k)
  | excluded low, k => decide (low < k)
  | unbounded, _ => true

/-- Whether a key lies on the inner side of an upper bound. -/
def above : Bound K → K → Bool
  | included high, k => decide (k ≤ high)
  | excluded high, k => decide (k < high)
  | unbounded, _ => true

/-- Whether two bounds leave no room, as far as comparing their keys tells. -/
def empties : Bound K → Bound K → Bool
  | included low, included high => decide (high < low)
  | included low, excluded high => decide (high ≤ low)
  | excluded low, included high => decide (high ≤ low)
  | excluded low, excluded high => decide (high ≤ low)
  | _, _ => false

/-- A scan may start from two bounds unless the lower key exceeds the upper one, or both are
the same key and leave it out. -/
def Sliceable : Bound K → Bound K → Prop
  | excluded low, excluded high => low < high
  | lower, upper => ∀ low high, lower.key? = some low → upper.key? = some high → low ≤ high

theorem sliceable_of_empties_eq_false [Std.IsLinearOrder K] [Std.LawfulOrderLT K]
    {lower upper : Bound K} (h : empties lower upper = false) : Sliceable lower upper := by
  cases lower <;> cases upper <;> simp_all [empties, Sliceable, key?] <;> grind

end Bound

structure KeyRange (K : Type) where
  /-- The end that the least keys lie at. -/
  lower : Bound K
  /-- The end that the greatest keys lie at. -/
  upper : Bound K
deriving DecidableEq

namespace KeyRange

variable {K : Type}

def full : KeyRange K := ⟨.unbounded, .unbounded⟩

/-- The range with each bound key let in. -/
def closure (r : KeyRange K) : KeyRange K := ⟨r.lower.closed, r.upper.closed⟩

variable [LE K] [LT K] [DecidableLE K] [DecidableLT K]

/-- The range between two bounds; refused when the lower key exceeds the upper one. -/
def ofBounds (lower upper : Bound K) : Except ViewError (KeyRange K) :=
  match lower.key?, upper.key? with
  | some low, some high => if high < low then .error .invalidRange else .ok ⟨lower, upper⟩
  | _, _ => .ok ⟨lower, upper⟩

/-- Whether a key lies in the range. -/
def contains (r : KeyRange K) (k : K) : Bool := r.lower.below k && r.upper.above k

/-- Whether the bound keys alone show that the range has no room. -/
def isEmpty (r : KeyRange K) : Bool := r.lower.empties r.upper

/-- Whether a requested bound may bound a part of the range. -/
def admits (r : KeyRange K) : Bound K → Bool
  | .included k => r.contains k
  | .excluded k => r.closure.contains k
  | .unbounded => true

/-- The part of the range between two bounds. Inverted bounds are refused first, then a bound
that the range does not admit. -/
def narrow (r : KeyRange K) (lower upper : Bound K) : Except ViewError (KeyRange K) :=
  match ofBounds lower upper with
  | .error e => .error e
  | .ok requested =>
    if r.admits requested.lower && r.admits requested.upper then
      .ok ⟨requested.lower.orElse r.lower, requested.upper.orElse r.upper⟩
    else
      .error .keyOutOfRange

end KeyRange

end SharedCells
