import Mathlib.Data.List.Basic
import SharedCells.Json.Document

/-!
# Integers and texts are read back

Reading undoes writing, for every 64-bit integer and every text, whatever follows: an integer ends
where a character follows that is no digit, and a text at its closing quote. Nothing that is
written begins with a blank or with a closing mark.

* `Reads` says this of a reader and a writer. `reads_integer`, `reads_quotedInteger` and
  `reads_text` are the three kinds of scalars.
* `LawfulItem` and `LawfulKey` are the types whose values can be read back in a document.
-/

namespace SharedCells.Json

variable {α β : Type}

/-! ## Readers that undo writers -/

/-- A character that a value may begin with: no blank, and no end of a list or an object. -/
def Opening (c : Char) : Prop := isBlank c = false ∧ c ≠ ']' ∧ c ≠ '\x7d'

/-- A rest that no integer goes on into. -/
def Stops (rest : List Char) : Prop := ∀ c ∈ rest.head?, c.isDigit = false

/-- A reader that undoes a writer and leaves what follows. -/
structure Reads (read : Reader α) (write : α → List Char) : Prop where
  opens (a : α) : ∃ c cs, write a = c :: cs ∧ Opening c
  reads (a : α) {rest : List Char} : Stops rest → read (write a ++ rest) = some (a, rest)

/-- A value that is written and read as another one. -/
theorem Reads.as {read : Reader α} {write : α → List Char} (h : Reads read write) {f : α → β}
    {g : β → α} (hfg : ∀ b, f (g b) = b) : Reads (read.as f) fun b => write (g b) where
  opens b := h.opens (g b)
  reads b rest hrest := by
    rw [Reader.as, h.reads (g b) hrest, Option.map_some]
    simp only [hfg]

/-! ## Naturals -/

theorem naturalOf_toDigits (n : Nat) : naturalOf (Nat.toDigits 10 n) = n := by
  have hfold : naturalOf (Nat.toDigits 10 n) = Nat.ofDigitChars 10 (Nat.toDigits 10 n) 0 := by
    unfold naturalOf Nat.ofDigitChars
    congr 1
    funext m c
    rw [Nat.mul_comm]
    rfl
  rw [hfold, Nat.ofDigitChars_ten_toDigits]

theorem isDigit_of_mem_writeNatural {n : Nat} {c : Char} (h : c ∈ writeNatural n) :
    c.isDigit = true :=
  Nat.isDigit_of_mem_toDigits (by decide) (by decide) h

theorem writeNatural_ne_nil (n : Nat) : writeNatural n ≠ [] :=
  List.ne_nil_of_length_pos Nat.length_toDigits_pos

/-- A number other than zero has no zero in front. -/
theorem head?_writeNatural_ne {n : Nat} (hn : 0 < n) : (writeNatural n).head? ≠ some '0' := by
  induction n using Nat.strongRecOn with
  | _ n ih =>
    by_cases hlt : n < 10
    · have hdigit : ∀ m < 10, 0 < m → m.digitChar ≠ '0' := by decide
      rw [writeNatural, Nat.toDigits_of_lt_base hlt]
      exact fun h => hdigit n hlt hn (Option.some_inj.1 h)
    · have hsplit : writeNatural n = writeNatural (n / 10) ++ [(n % 10).digitChar] :=
        Nat.toDigits_of_base_le (by decide) (by omega)
      rw [hsplit, List.head?_append_of_ne_nil _ (writeNatural_ne_nil (n / 10))]
      exact ih (n / 10) (by omega) (by omega)

theorem readNatural_write (n : Nat) {rest : List Char} (hrest : Stops rest) :
    readNatural (writeNatural n ++ rest) = some (n, rest) := by
  have hdigits : ∀ c ∈ writeNatural n, c.isDigit = true := fun c => isDigit_of_mem_writeNatural
  have htake : rest.takeWhile Char.isDigit = [] := by
    cases rest with
    | nil => rfl
    | cons c cs => exact List.takeWhile_cons_of_neg (by simp [hrest c rfl])
  have hdrop : rest.dropWhile Char.isDigit = rest := by
    cases rest with
    | nil => rfl
    | cons c cs => exact List.dropWhile_cons_of_neg (by simp [hrest c rfl])
  unfold readNatural
  rw [List.takeWhile_append_of_pos hdigits, htake, List.append_nil,
    List.dropWhile_append_of_pos hdigits, hdrop]
  split
  · rename_i hnil
    exact absurd hnil (writeNatural_ne_nil n)
  · rename_i d ds hzero
    -- Only the number zero begins with a zero, and it has one digit.
    rcases Nat.eq_zero_or_pos n with rfl | hn
    · cases hzero
    · exact absurd (congrArg List.head? hzero) (head?_writeNatural_ne hn)
  · rw [writeNatural, naturalOf_toDigits]

/-! ## Integers -/

theorem int64?_toInt (n : Int64) : int64? n.toInt = some n := by
  rw [int64?, if_pos ⟨Int64.minValue_le_toInt n, Int64.toInt_le n⟩, Int64.ofInt_toInt]

theorem opening_of_isDigit {c : Char} (h : c.isDigit = true) : Opening c := by
  have hne : ∀ d : Char, d.isDigit = false → c ≠ d := by
    rintro d hd rfl
    rw [h] at hd
    cases hd
  refine ⟨?_, hne ']' rfl, hne '\x7d' rfl⟩
  simp [isBlank, hne ' ' rfl, hne '\n' rfl, hne '\t' rfl, hne '\r' rfl]

theorem readInteger_minus {cs rest : List Char} {n : Nat} (h : readNatural cs = some (n, rest))
    (hn : n ≠ 0) : readInteger ('-' :: cs) = (int64? (-n)).map (·, rest) := by
  rw [readInteger, h]
  cases n with
  | zero => exact absurd rfl hn
  | succ n => rfl

theorem readInteger_digits {cs rest : List Char} {n : Nat} (h : readNatural cs = some (n, rest))
    (hcs : cs.head? ≠ some '-') : readInteger cs = (int64? n).map (·, rest) := by
  unfold readInteger
  split
  · exact absurd rfl hcs
  · rw [h]

theorem reads_integer : Reads readInteger writeInteger where
  opens n := by
    unfold writeInteger
    split
    · exact ⟨'-', _, rfl, rfl, by decide, by decide⟩
    · cases hn : writeNatural n.toInt.natAbs with
      | nil => exact absurd hn (writeNatural_ne_nil _)
      | cons c cs =>
        have hc : c ∈ writeNatural n.toInt.natAbs := hn ▸ List.mem_cons_self
        exact ⟨c, cs, rfl, opening_of_isDigit (isDigit_of_mem_writeNatural hc)⟩
  reads n rest hrest := by
    have hread := readNatural_write n.toInt.natAbs hrest
    unfold writeInteger
    split
    · have hvalue : -(n.toInt.natAbs : Int) = n.toInt := by omega
      rw [List.cons_append, readInteger_minus hread (by omega), hvalue, int64?_toInt]
      rfl
    · have hvalue : (n.toInt.natAbs : Int) = n.toInt := by omega
      have hhead : (writeNatural n.toInt.natAbs ++ rest).head? ≠ some '-' := by
        rw [List.head?_append_of_ne_nil _ (writeNatural_ne_nil _)]
        intro h
        have hdigit := isDigit_of_mem_writeNatural (List.mem_of_head? h)
        cases hdigit
      rw [readInteger_digits hread hhead, hvalue, int64?_toInt]
      rfl

theorem stops_cons {c : Char} (h : c.isDigit = false) (rest : List Char) : Stops (c :: rest) := by
  intro d hd
  rw [← Option.some_inj.1 hd]
  exact h

theorem reads_quotedInteger :
    Reads readQuotedInteger fun n => '"' :: (writeInteger n ++ ['"']) where
  opens n := ⟨'"', _, rfl, rfl, by decide, by decide⟩
  reads n rest _ := by
    have hquote : Stops ('"' :: rest) := stops_cons rfl rest
    have hread := reads_integer.reads n hquote
    rw [List.cons_append, List.append_assoc, readQuotedInteger, List.singleton_append, hread]
    rfl

/-! ## Texts -/

theorem hexWord?_control {n : Nat} (hn : n < 32) :
    hexWord? '0' '0' (hexDigit (n / 16)) (hexDigit n) = some n := by
  have hall : ∀ n < 32, hexWord? '0' '0' (hexDigit (n / 16)) (hexDigit n) = some n := by decide
  exact hall n hn

theorem readCharacters_escape (c : Char) (rest : List Char) :
    readCharacters (escape c ++ rest) =
      (readCharacters rest).map fun (cs, rest) => (c :: cs, rest) := by
  by_cases hletter : c ∈ ['"', '\\', '\n', '\r', '\t', '\x08', '\x0c']
  · simp only [List.mem_cons, List.not_mem_nil, or_false] at hletter
    rcases hletter with rfl | rfl | rfl | rfl | rfl | rfl | rfl <;> rfl
  · simp only [List.mem_cons, List.not_mem_nil, or_false, not_or] at hletter
    obtain ⟨hquote, hslash, hn, hr, ht, hb, hf⟩ := hletter
    unfold escape
    rw [if_neg hquote, if_neg hslash, if_neg hn, if_neg hr, if_neg ht, if_neg hb, if_neg hf]
    split
    · rename_i hcontrol
      have hlt : c.toNat < 32 := hcontrol
      have htrailing : isTrailing c.toNat = false := by simp [isTrailing]; omega
      have hleading : isLeading c.toNat = false := by simp [isLeading]; omega
      simp only [List.cons_append, List.nil_append]
      rw [readCharacters, hexWord?_control hlt]
      simp [htrailing, hleading, Char.ofNat_toNat]
    · rename_i hplain
      rw [List.singleton_append, readCharacters, if_neg (not_or.2 ⟨hslash, hplain⟩)]
      · exact hquote
      · exact fun _ _ _ _ _ h _ => hslash h
      · exact fun _ _ h _ => hslash h

theorem readCharacters_text (cs rest : List Char) :
    readCharacters (cs.flatMap escape ++ '"' :: rest) = some (cs, rest) := by
  induction cs with
  | nil => rfl
  | cons c cs ih =>
    rw [List.flatMap_cons, List.append_assoc, readCharacters_escape, ih]
    rfl

theorem reads_text : Reads readText writeText where
  opens s := ⟨'"', _, rfl, rfl, by decide, by decide⟩
  reads s rest _ := by
    rw [writeText, List.cons_append, List.append_assoc, List.singleton_append, readText,
      readCharacters_text, Option.map_some]
    simp only [String.ofList_toList]

/-! ## Types of scalars -/

/-- Values that are read back from a list or from under a key. -/
class LawfulItem (α : Type) [Item α] : Prop where
  reads : Reads (Item.read : Reader α) Item.write

/-- Values that are read back as keys of an object. -/
class LawfulKey (α : Type) [Key α] : Prop where
  reads : Reads (Key.read : Reader α) Key.write

instance : LawfulItem String := ⟨reads_text⟩

instance : LawfulItem Int64 := ⟨reads_integer⟩

instance [Item α] [LawfulItem α] : LawfulItem (Descending α) :=
  ⟨LawfulItem.reads.as (f := Descending.mk) fun _ => rfl⟩

instance : LawfulKey String := ⟨reads_text⟩

instance : LawfulKey Int64 := ⟨reads_quotedInteger⟩

instance [Key α] [LawfulKey α] : LawfulKey (Descending α) :=
  ⟨LawfulKey.reads.as (f := Descending.mk) fun _ => rfl⟩

end SharedCells.Json
