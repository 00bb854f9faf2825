import SharedCells.Decimal.Layout
import SharedCells.Json.Document

/-!
# Numbers in JSON

A floating-point value is read from any number of the format, an integer included. The digits
make a significand, as many of them as fit into 64 bits, and the significand is then scaled by a
power of ten in floating-point arithmetic, so that a long number is not always read as the value
nearest to it. A number beyond all finite values is refused; one that is too small is zero. There
is no number for a value that is not finite, and `null` is written for it.

* `readNumeral` follows the grammar, and `Numeral.value?` gives the value.
* `jsonLayout` says how numbers are written.
-/

namespace SharedCells.Json

/-- A number as it is written. -/
structure Numeral where
  /-- Whether there is a minus sign. -/
  negative : Bool
  whole : List Char
  fraction : List Char
  exponent : Int

/-! ## Grammar -/

def readDigits : Reader (List Char) := fun cs =>
  match cs.takeWhile Char.isDigit with
  | [] => none
  | digits => some (digits, cs.dropWhile Char.isDigit)

/-- Reads the digits behind a point, if there is a point. -/
def readFraction : Reader (List Char)
  | '.' :: rest => readDigits rest
  | cs => some ([], cs)

/-- Reads a power of ten behind its letter. -/
def readPower : Reader Int
  | '-' :: rest => (readDigits rest).map fun (digits, rest) => (-(naturalOf digits : Int), rest)
  | '+' :: rest => (readDigits rest).map fun (digits, rest) => ((naturalOf digits : Int), rest)
  | rest => (readDigits rest).map fun (digits, rest) => ((naturalOf digits : Int), rest)

/-- Reads a power of ten, if there is one. -/
def readExponent : Reader Int
  | 'e' :: rest => readPower rest
  | 'E' :: rest => readPower rest
  | cs => some (0, cs)

/-- Reads a number without a sign. -/
def readUnsigned (negative : Bool) : Reader Numeral := fun cs => do
  let (whole, cs) ← readDigits cs
  if whole.length > 1 ∧ whole.head? = some '0' then none
  let (fraction, cs) ← readFraction cs
  let (exponent, cs) ← readExponent cs
  some (⟨negative, whole, fraction, exponent⟩, cs)

def readNumeral : Reader Numeral
  | '-' :: rest => readUnsigned true rest
  | cs => readUnsigned false cs

/-! ## Values -/

/-- A significand with one more digit, if it still fits into 64 bits. -/
def extended? (significand : Nat) (c : Char) : Option Nat :=
  let extended := significand * 10 + (c.toNat - 48)
  if extended < UInt64.size then some extended else none

/-- Adds digits before the point; gives the significand and the number of digits left out. -/
def addWhole (significand : Nat) : List Char → Nat × Nat
  | [] => (significand, 0)
  | c :: cs =>
    match extended? significand c with
    | some extended => addWhole extended cs
    | none => (significand, cs.length + 1)

/-- Adds digits behind the point; gives the significand and the number of digits added. -/
def addFraction (significand added : Nat) : List Char → Nat × Nat
  | [] => (significand, added)
  | c :: cs =>
    match extended? significand c with
    | some extended => addFraction extended (added + 1) cs
    | none => (significand, added)

/-- A power of ten that is finite. -/
def tenTo (n : Nat) : Float := Float.ofScientific 1 false n

/-- A value scaled by a power of ten. The powers stop at 308; a division by two of them leaves
nothing of any significand. -/
def scaled? (x : Float) (power : Int) : Option Float :=
  if x == 0 then some x
  else if 308 < power then none
  else if 0 ≤ power then
    let y := x * tenTo power.toNat
    if y.isFinite then some y else none
  else if -308 ≤ power then some (x / tenTo (-power).toNat)
  else if -616 ≤ power then some (x / tenTo 308 / tenTo (-power - 308).toNat)
  else some 0

def Numeral.value? (n : Numeral) : Option Float :=
  let (significand, omitted) := addWhole 0 n.whole
  let (significand, added) := addFraction significand 0 n.fraction
  let magnitude := scaled? (Float.ofNat significand) (n.exponent + omitted - added)
  if n.negative then magnitude.map fun x => -x else magnitude

def readFloat : Reader Float := fun cs => do
  let (n, cs) ← readNumeral cs
  let x ← n.value?
  some (x, cs)

/-! ## Writing -/

/-- First digits from a hundred-thousandth up to sixteen digits before the point are written
without an exponent. -/
def jsonLayout : Decimal.Layout := ⟨-5, 15, true, false⟩

def writeFloat (x : Float) : List Char :=
  if x.isFinite then jsonLayout.write x else ['n', 'u', 'l', 'l']

instance : Item Float := ⟨writeFloat, readFloat⟩

end SharedCells.Json
