/-!
# Shortest decimals

A floating-point value stands for all reals that round to it: those between the middles of the
gaps below and above, the middles included when the significand is even. Its shortest decimal is
the one among them with the fewest digits, and of two such the one nearer to the value. Whether a
tie goes up or to the even digit is for the format to say.

* `Binary.ofBits` reads a value off its bits.
* `Binary.onGrid` finds the best multiple of a power of ten, if one is near enough.
* `Binary.shortest` is the best multiple of the greatest power of ten that has one.
-/

namespace SharedCells

/-- A positive number, as a multiple of a power of ten. -/
structure Decimal where
  multiple : Nat
  /-- The exponent of the power of ten. -/
  exponent : Int
deriving DecidableEq

/-- A positive number, as a multiple of a power of two. -/
structure Binary where
  significand : Nat
  /-- The exponent of the power of two. -/
  exponent : Int
  /-- Whether the gap below is half as wide as the gap above. -/
  narrowBelow : Bool
deriving DecidableEq

namespace Binary

/-- The magnitude of a finite value with the given bits. -/
def ofBits (bits : UInt64) : Binary :=
  let fraction : Nat := (bits &&& 0xfffffffffffff).toNat
  let exponent : Nat := (bits >>> 52 &&& 0x7ff).toNat
  if exponent = 0 then ⟨fraction, -1074, false⟩
  else ⟨0x10000000000000 + fraction, exponent - 1075, decide (fraction = 0 ∧ 1 < exponent)⟩

/-- The multiple of a power of ten that is nearest to a value, if it rounds to the value. All
numbers are counted in a unit of which both a quarter of the last place and the power of ten are
multiples. -/
def onGrid (tiesUp : Bool) (b : Binary) (power : Int) : Option Nat :=
  let quarter := Nat.pow 2 (b.exponent - 2).toNat * Nat.pow 10 (-power).toNat
  let grid := Nat.pow 10 power.toNat * Nat.pow 2 (2 - b.exponent).toNat
  let value := 4 * b.significand * quarter
  let low := value - (if b.narrowBelow then quarter else 2 * quarter)
  let high := value + 2 * quarter
  let isNear := fun n =>
    if b.significand % 2 = 0 then decide (low ≤ n * grid ∧ n * grid ≤ high)
    else decide (low < n * grid ∧ n * grid < high)
  let below := value / grid
  let nearest :=
    match compare (2 * value) ((2 * below + 1) * grid) with
    | .lt => below
    | .gt => below + 1
    | .eq => if tiesUp || below % 2 = 1 then below + 1 else below
  if isNear nearest then some nearest
  else if isNear below then some below
  else if isNear (below + 1) then some (below + 1)
  else none

/-- A power of ten beyond the value, and not far beyond it: three tenths and a little more of a
decimal digit make a binary one. -/
def beyond (b : Binary) : Int :=
  ((b.significand.log2 : Int) + 1 + b.exponent) * 30103 / 100000 + 1

/-- The value itself as a decimal. -/
def exact (b : Binary) : Decimal :=
  ⟨b.significand * Nat.pow 2 b.exponent.toNat * Nat.pow 5 (-b.exponent).toNat, min b.exponent 0⟩

/-- The shortest decimal that rounds to a value other than zero. Seventeen digits always do. -/
def shortest (tiesUp : Bool) (b : Binary) : Decimal :=
  ((List.range 24).findSome? fun (steps : Nat) =>
    (b.onGrid tiesUp (b.beyond - steps)).map fun n => ⟨n, b.beyond - steps⟩).getD b.exact

end Binary

end SharedCells
