import SharedCells.Json.Text

/-!
# Integers in JSON

A 64-bit integer is written in decimal digits with a minus sign where needed. Reading takes the
shortest written form only: no plus sign, no zero in front, no minus before zero, and nothing
beyond 64 bits.

* `writeInteger` and `readInteger` are the two directions.
-/

namespace SharedCells.Json

/-- The digits of a natural number. -/
def writeNatural (n : Nat) : List Char := Nat.toDigits 10 n

def writeInteger (n : Int64) : List Char :=
  if n.toInt < 0 then '-' :: writeNatural n.toInt.natAbs else writeNatural n.toInt.natAbs

/-- The value of a row of digits. -/
def naturalOf (digits : List Char) : Nat :=
  digits.foldl (fun n c => n * 10 + (c.toNat - 48)) 0

/-- Reads a natural number that has no zero in front. -/
def readNatural : Reader Nat := fun cs =>
  match cs.takeWhile Char.isDigit with
  | [] => none
  | '0' :: _ :: _ => none
  | digits => some (naturalOf digits, cs.dropWhile Char.isDigit)

/-- The 64-bit integer with a value, if there is one. -/
def int64? (n : Int) : Option Int64 :=
  if Int64.minValue.toInt ≤ n ∧ n ≤ Int64.maxValue.toInt then some (Int64.ofInt n) else none

def readInteger : Reader Int64
  | '-' :: rest =>
    match readNatural rest with
    | none | some (0, _) => none
    | some (n, rest) => (int64? (-n)).map (·, rest)
  | cs =>
    match readNatural cs with
    | none => none
    | some (n, rest) => (int64? n).map (·, rest)

end SharedCells.Json
