import SharedCells.Text.Combining
import SharedCells.Text.Invisible

/-!
# Quoted text

A text is shown between double quotes. Five control characters and the two characters that
would end or bend the literal have short escapes; everything else that leaves no mark of its own
on paper is written by its code point, as in `\u{1}`.

* `quote` writes the literal.
* `leavesMark` decides which characters stand for themselves.
-/

namespace SharedCells.Text

/-- Whether a character stands for itself in a literal: it can be seen, and by itself. -/
def leavesMark (c : Char) : Bool := !isInvisible c && !isCombining c

/-- A number in base sixteen, in small letters and without leading zeros. -/
def hexadecimal (n : Nat) : String := String.ofList (Nat.toDigits 16 n)

/-- How a character is written inside a literal. -/
def escape (c : Char) : String :=
  if c = '"' then "\\\""
  else if c = '\\' then "\\\\"
  else if c = '\n' then "\\n"
  else if c = '\r' then "\\r"
  else if c = '\t' then "\\t"
  else if c.toNat = 0 then "\\0"
  else if leavesMark c then String.singleton c
  else "\\u\x7b" ++ hexadecimal c.toNat ++ "\x7d"

def quote (s : String) : String := "\"" ++ String.join (s.toList.map escape) ++ "\""

end SharedCells.Text
