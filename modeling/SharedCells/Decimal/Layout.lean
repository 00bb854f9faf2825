import SharedCells.Decimal.Shortest

/-!
# Layouts of floating-point values

A finite value is written with the digits of its shortest decimal. Values of moderate size have
a point among the digits and at least one digit on either side of it; the others have the point
after the first digit, if more digits follow, and the power of ten after an `e`.

* A `Layout` holds the decisions of a format, and `Layout.write` writes a value by them.
-/

namespace SharedCells.Decimal

/-- How a format writes finite values. -/
structure Layout where
  /-- The least power of ten of a first digit that is written without an exponent. -/
  least : Int
  greatest : Int
  /-- Whether a positive exponent has a sign. -/
  signed : Bool
  /-- Whether a tie between two decimals goes to the greater one, and not to the even one. -/
  tiesUp : Bool

def zeros (n : Nat) : List Char := List.replicate n '0'

/-- The power of ten of the first of some digits. -/
def leading (digits : List Char) (exponent : Int) : Int := digits.length - 1 + exponent

/-- Digits with a point among them, before them or behind them. -/
def positional (digits : List Char) (exponent : Int) : List Char :=
  let e := leading digits exponent
  if 0 ≤ exponent then digits ++ zeros exponent.toNat ++ ['.', '0']
  else if 0 ≤ e then digits.take (e.toNat + 1) ++ '.' :: digits.drop (e.toNat + 1)
  else '0' :: '.' :: (zeros (-e - 1).toNat ++ digits)

/-- Digits with a power of ten. -/
def scientific (signed : Bool) (digits : List Char) (exponent : Int) : List Char :=
  let e := leading digits exponent
  let sign := if e < 0 then ['-'] else if signed then ['+'] else []
  let rest := digits.drop 1
  digits.take 1 ++ (if rest.isEmpty then [] else '.' :: rest) ++
    'e' :: (sign ++ Nat.toDigits 10 e.natAbs)

/-- Whether the sign of a floating-point value is negative, also that of a zero. -/
def isNegative (x : Float) : Bool := x.toBits >>> 63 == 1

namespace Layout

def writeDecimal (layout : Layout) (d : Decimal) : List Char :=
  let digits := Nat.toDigits 10 d.multiple
  let e := leading digits d.exponent
  if layout.least ≤ e ∧ e ≤ layout.greatest then positional digits d.exponent
  else scientific layout.signed digits d.exponent

/-- Writes the magnitude of a finite value with the given bits. -/
def writeMagnitude (layout : Layout) (bits : UInt64) : List Char :=
  let b := Binary.ofBits bits
  if b.significand = 0 then ['0', '.', '0'] else layout.writeDecimal (b.shortest layout.tiesUp)

def write (layout : Layout) (x : Float) : List Char :=
  if isNegative x then '-' :: layout.writeMagnitude x.toBits else layout.writeMagnitude x.toBits

end Layout

end SharedCells.Decimal
