/-!
# A 64-bit keyed digest

A digest of a byte sequence by four words that are added, rotated and mixed: one round for each
eight bytes and three rounds at the end, under the zero key. The last word carries the bytes
left over and, in its top byte, the length of the sequence.

* `Sip.digest` digests a byte sequence.
* `Sip.hex` writes a digest as sixteen digits.
-/

namespace SharedCells.Digest.Sip

/-- The four words that are mixed. -/
structure State where
  v0 : UInt64
  v1 : UInt64
  v2 : UInt64
  v3 : UInt64

/-- The words before the first byte. -/
def start : State :=
  ⟨0x736f6d6570736575, 0x646f72616e646f6d, 0x6c7967656e657261, 0x7465646279746573⟩

/-- A word turned to the left by fewer than 64 places. -/
def rotate (x : UInt64) (n : UInt64) : UInt64 := (x <<< n) ||| (x >>> (64 - n))

def State.round (s : State) : State :=
  let v0 := s.v0 + s.v1
  let v1 := rotate s.v1 13 ^^^ v0
  let v0 := rotate v0 32
  let v2 := s.v2 + s.v3
  let v3 := rotate s.v3 16 ^^^ v2
  let v0 := v0 + v3
  let v3 := rotate v3 21 ^^^ v0
  let v2 := v2 + v1
  let v1 := rotate v1 17 ^^^ v2
  let v2 := rotate v2 32
  ⟨v0, v1, v2, v3⟩

/-- Takes in eight bytes as one word. -/
def State.absorb (s : State) (word : UInt64) : State :=
  let s := { s with v3 := s.v3 ^^^ word }.round
  { s with v0 := s.v0 ^^^ word }

def State.finish (s : State) : UInt64 :=
  let s := { s with v2 := s.v2 ^^^ 0xff }.round.round.round
  s.v0 ^^^ s.v1 ^^^ s.v2 ^^^ s.v3

/-- Up to eight bytes as a word, the first byte lowest. -/
def word (bytes : List UInt8) : UInt64 :=
  bytes.foldr (fun b rest => (rest <<< 8) ||| b.toUInt64) 0

/-- Takes in a byte sequence eight bytes at a time and ends with the rest of it, under the
length of the whole. -/
def run (length : Nat) (s : State) : List UInt8 → UInt64
  | a :: b :: c :: d :: e :: f :: g :: h :: rest =>
    run length (s.absorb (word [a, b, c, d, e, f, g, h])) rest
  | rest => (s.absorb ((UInt64.ofNat length <<< 56) ||| word rest)).finish

/-- The digest of a byte sequence. -/
def digest (bytes : List UInt8) : UInt64 := run bytes.length start bytes

/-- A digest as sixteen digits in small letters. -/
def hex (d : UInt64) : String :=
  let digits := Nat.toDigits 16 d.toNat
  String.ofList (List.replicate (16 - digits.length) '0' ++ digits)

end SharedCells.Digest.Sip
