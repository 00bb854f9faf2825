import SharedCells.Descending
import SharedCells.KeyRange
import SharedCells.Digest.Sip

/-!
# Fingerprints

`Fingerprint α` says which bytes a value gives to a digest. Words are given low byte first; a
text gives its encoding and a byte that no encoding holds; a sequence gives its length first, so
that nested sequences cannot run into each other.

* `fingerprint` digests one value.
* `unorderedBytes` is for collections without an order: every item is digested on its own and
  the digests are added up, so that the order of the items does not show.
-/

namespace SharedCells.Digest

class Fingerprint (α : Type) where
  /-- The bytes that a value gives to a digest. -/
  bytes : α → List UInt8

export Fingerprint (bytes)

def fingerprint {α : Type} [Fingerprint α] (a : α) : UInt64 := Sip.digest (bytes a)

/-- The eight bytes of a word, low byte first. -/
def wordBytes (w : UInt64) : List UInt8 :=
  [0, 8, 16, 24, 32, 40, 48, 56].map fun (places : UInt64) => (w >>> places).toUInt8

/-- The eight bytes of a count. -/
def countBytes (n : Nat) : List UInt8 := wordBytes (UInt64.ofNat n)

instance : Fingerprint UInt64 := ⟨wordBytes⟩

instance : Fingerprint Int64 := ⟨fun n => wordBytes n.toUInt64⟩

instance : Fingerprint Float := ⟨fun x => wordBytes x.toBits⟩

instance : Fingerprint String := ⟨fun s => s.toUTF8.toList ++ [0xff]⟩

instance {α : Type} [Fingerprint α] : Fingerprint (Descending α) := ⟨fun a => bytes a.value⟩

instance {α β : Type} [Fingerprint α] [Fingerprint β] : Fingerprint (α × β) :=
  ⟨fun (a, b) => bytes a ++ bytes b⟩

instance {α : Type} [Fingerprint α] : Fingerprint (List α) :=
  ⟨fun as => countBytes as.length ++ as.flatMap bytes⟩

instance {K : Type} [Fingerprint K] : Fingerprint (Bound K) where
  bytes
    | .included k => countBytes 0 ++ bytes k
    | .excluded k => countBytes 1 ++ bytes k
    | .unbounded => countBytes 2

instance {K : Type} [Fingerprint K] : Fingerprint (KeyRange K) where
  bytes r := bytes r.lower ++ bytes r.upper

/-- What items give to a digest when their order must not show: how many there are, and the
sum of their digests. -/
def unorderedBytes {α : Type} [Fingerprint α] (items : List α) : List UInt8 :=
  let (count, sum) := items.foldl (fun (count, sum) item => (count + 1, sum + fingerprint item))
    ((0 : Nat), (0 : UInt64))
  countBytes count ++ wordBytes sum

end SharedCells.Digest
