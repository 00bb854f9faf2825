import SharedCells.Json.Number
import SharedCells.Text.Describe

/-!
# Floating-point values as text

A finite value is shown with the digits of its shortest decimal and always with a point or an
exponent. A negative zero shows its sign; values that are not numbers or not finite are named.

Reading takes any decimal and gives the value nearest to it.

* `describeFloat` and `float?` are the two directions.
-/

namespace SharedCells.Text

/-- First digits from a ten-thousandth up to sixteen digits before the point are written without
an exponent. -/
def textLayout : Decimal.Layout := ⟨-4, 15, false, true⟩

/-- The text of a floating-point value. -/
def describeFloat (x : Float) : String :=
  if x.isNaN then "NaN"
  else if x.isInf then if Decimal.isNegative x then "-inf" else "inf"
  else String.ofList (textLayout.write x)

instance : Describe Float := ⟨describeFloat⟩

/-- The floating-point value nearest to some digits times a power of ten. Beyond four hundred
places on either side there are no finite values and no values but zero. -/
def nearest (digits : List Char) (power : Int) : Float :=
  let digits := digits.dropWhile (· = '0')
  let places := digits.length + power
  if digits.isEmpty ∨ places < -400 then 0
  else if 400 < places then 1.0 / 0.0
  else Float.ofScientific (Json.naturalOf digits) (decide (power < 0)) power.natAbs

/-- The magnitude that digits name, with a point and an exponent where they are given. Digits may
be missing on one side of the point. -/
def numberNamed? (cs : List Char) : Option Float := do
  let whole := cs.takeWhile Char.isDigit
  let (fraction, cs) := match cs.dropWhile Char.isDigit with
    | '.' :: rest => (rest.takeWhile Char.isDigit, rest.dropWhile Char.isDigit)
    | rest => ([], rest)
  let (exponent, cs) ← Json.readExponent cs
  if (whole ++ fraction).isEmpty ∨ ¬ cs.isEmpty then none
  else some (nearest (whole ++ fraction) (exponent - fraction.length))

/-- The magnitude that a word or digits name; letters may be of either case. -/
def magnitudeNamed? (cs : List Char) : Option Float :=
  match String.ofList (cs.map Char.toLower) with
  | "nan" => some (0.0 / 0.0)
  | "inf" | "infinity" => some (1.0 / 0.0)
  | _ => numberNamed? cs

/-- The floating-point value that a text names, with or without a sign. -/
def float? (text : String) : Option Float :=
  match text.toList with
  | '-' :: cs => (magnitudeNamed? cs).map fun x => -x
  | '+' :: cs => magnitudeNamed? cs
  | cs => magnitudeNamed? cs

end SharedCells.Text
