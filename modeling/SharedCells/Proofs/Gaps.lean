import Mathlib.Data.String.Basic
import SharedCells.Descending
import SharedCells.Proofs.Store.Range

/-!
# Ranges that hold no key

To tell whether a range is empty its bound keys are compared, and nothing else is asked of their
order. So no key lies in a range that is found empty, but a range may hold no key and not be found
empty: its bounds leave out two neighbours, or they leave out the key at one end of the order. Such
a range is a gap (`KeyRange.Gap`), and `exists_contains` says that there is no other one.

Which keys are neighbours depends on the type of the keys (`Spaced`): integers of 64 bits that
differ by one, a string and the same string with a null character after it.
-/

namespace SharedCells

/-- Keys of which it is known who are neighbours, and who lie at the ends of their order. -/
class Spaced (K : Type) [LT K] where
  /-- The second key comes next to the first one. -/
  Next : K → K → Prop
  First : K → Prop
  Last : K → Prop
  next_iff (a b : K) : Next a b ↔ a < b ∧ ∀ k, a < k → ¬k < b
  first_iff (a : K) : First a ↔ ∀ k, ¬k < a
  last_iff (a : K) : Last a ↔ ∀ k, ¬a < k
  inhabited : Nonempty K

/-! ## Gaps -/

namespace KeyRange

variable {K : Type} [LT K] [Spaced K]

/-- The bounds leave out two neighbours, or the key at one end of the order. -/
def Gap (r : KeyRange K) : Prop :=
  match r.lower, r.upper with
  | .excluded low, .excluded high => Spaced.Next low high
  | .unbounded, .excluded high => Spaced.First high
  | .excluded low, .unbounded => Spaced.Last low
  | _, _ => False

variable [LE K] [DecidableLE K] [DecidableLT K] {r : KeyRange K}

theorem Gap.not_contains (h : r.Gap) (k : K) : r.contains k = false := by
  obtain ⟨lower, upper⟩ := r
  refine Bool.eq_false_iff.2 fun hcontains => ?_
  obtain ⟨hbelow, habove⟩ := Bool.and_eq_true_iff.1 hcontains
  cases lower with
  | included low => exact h
  | excluded low =>
    cases upper with
    | included high => exact h
    | excluded high =>
      have hnext := (Spaced.next_iff low high).1 h
      exact hnext.2 k (of_decide_eq_true hbelow) (of_decide_eq_true habove)
    | unbounded => exact (Spaced.last_iff low).1 h k (of_decide_eq_true hbelow)
  | unbounded =>
    cases upper with
    | excluded high => exact (Spaced.first_iff high).1 h k (of_decide_eq_true habove)
    | _ => exact h

variable [Std.IsLinearOrder K] [Std.LawfulOrderLT K]

theorem Gap.not_isEmpty (h : r.Gap) : r.isEmpty = false := by
  obtain ⟨lower, upper⟩ := r
  cases lower with
  | included low => exact h.elim
  | unbounded => rfl
  | excluded low =>
    cases upper with
    | included high => exact h.elim
    | unbounded => rfl
    | excluded high =>
      have hlt : low < high := ((Spaced.next_iff low high).1 h).1
      exact decide_eq_false (Std.not_le.2 hlt)

/-- A range that is not found empty holds a key, unless it is a gap. -/
theorem exists_contains (hroom : r.isEmpty = false) (hgap : ¬r.Gap) :
    ∃ k, r.contains k = true := by
  obtain ⟨lower, upper⟩ := r
  -- A bound that belongs to the range is a key of it.
  cases lower with
  | included low =>
    refine ⟨low, Bool.and_eq_true_iff.2 ⟨decide_eq_true (Std.le_refl low), ?_⟩⟩
    cases upper with
    | included high => exact decide_eq_true (Std.not_lt.1 (of_decide_eq_false hroom))
    | excluded high => exact decide_eq_true (Std.not_le.1 (of_decide_eq_false hroom))
    | unbounded => rfl
  | excluded low =>
    cases upper with
    | included high =>
      have hlt : low < high := Std.not_le.1 (of_decide_eq_false hroom)
      exact ⟨high, Bool.and_eq_true_iff.2 ⟨decide_eq_true hlt, decide_eq_true (Std.le_refl high)⟩⟩
    | excluded high =>
      have hlt : low < high := Std.not_le.1 (of_decide_eq_false hroom)
      have hbetween : ¬∀ k, low < k → ¬k < high := fun hnone =>
        hgap ((Spaced.next_iff low high).2 ⟨hlt, hnone⟩)
      push Not at hbetween
      obtain ⟨k, hlow, hhigh⟩ := hbetween
      exact ⟨k, Bool.and_eq_true_iff.2 ⟨decide_eq_true hlow, decide_eq_true hhigh⟩⟩
    | unbounded =>
      have hbeyond : ¬∀ k, ¬low < k := fun hnone => hgap ((Spaced.last_iff low).2 hnone)
      push Not at hbeyond
      obtain ⟨k, hlow⟩ := hbeyond
      exact ⟨k, Bool.and_eq_true_iff.2 ⟨decide_eq_true hlow, rfl⟩⟩
  | unbounded =>
    cases upper with
    | included high => exact ⟨high, decide_eq_true (Std.le_refl high)⟩
    | excluded high =>
      have hbefore : ¬∀ k, ¬k < high := fun hnone => hgap ((Spaced.first_iff high).2 hnone)
      push Not at hbefore
      obtain ⟨k, hhigh⟩ := hbefore
      exact ⟨k, decide_eq_true hhigh⟩
    | unbounded =>
      obtain ⟨k⟩ := Spaced.inhabited (K := K)
      exact ⟨k, rfl⟩

theorem isEmpty_iff (r : KeyRange K) :
    r.isEmpty = true ↔ (∀ k, r.contains k = false) ∧ ¬r.Gap := by
  constructor
  · refine fun hempty => ⟨Bound.not_between_of_empties hempty, fun hgap => ?_⟩
    cases hgap.not_isEmpty.symm.trans hempty
  · rintro ⟨hnone, hgap⟩
    refine Bool.of_not_eq_false fun hroom => ?_
    obtain ⟨k, hk⟩ := exists_contains hroom hgap
    cases (hnone k).symm.trans hk

/-- What a comparison of its bound keys tells about a range. -/
structure Judged (r : KeyRange K) : Prop where
  isEmpty_iff : r.isEmpty = true ↔ (∀ k, r.contains k = false) ∧ ¬r.Gap
  /-- A gap holds no key either. -/
  gap : r.Gap → ∀ k, r.contains k = false
  /-- So it tells whether the range holds no key exactly where the range is no gap. -/
  tells_iff : (r.isEmpty = true ↔ ∀ k, r.contains k = false) ↔ ¬r.Gap

theorem judged (r : KeyRange K) : r.Judged where
  isEmpty_iff := r.isEmpty_iff
  gap := Gap.not_contains
  tells_iff := by
    refine ⟨fun htells hgap => ?_, fun hgap => ?_⟩
    · cases hgap.not_isEmpty.symm.trans (htells.2 hgap.not_contains)
    · rw [r.isEmpty_iff, and_iff_left hgap]

end KeyRange

/-! ## Neighbours -/

/-- Integers are neighbours that differ by one. -/
instance : Spaced Int64 where
  Next a b := a.toInt + 1 = b.toInt
  First a := a = .minValue
  Last a := a = .maxValue
  next_iff a b := by
    simp only [Int64.lt_iff_toInt_lt]
    refine ⟨fun h => ⟨by omega, fun k => by omega⟩, fun ⟨hlt, hnone⟩ => ?_⟩
    -- The integer after the first one is not before the second one.
    have hnext : (Int64.ofInt (a.toInt + 1)).toInt = a.toInt + 1 := by
      have := a.le_toInt
      have := b.toInt_lt
      exact Int64.toInt_ofInt_of_le (by omega) (by omega)
    have := hnone (.ofInt (a.toInt + 1))
    omega
  first_iff a := by
    simp only [Int64.lt_iff_toInt_lt, ← Int64.toInt_inj, Int64.toInt_minValue]
    refine ⟨fun h k => ?_, fun h => ?_⟩
    · have := k.le_toInt
      omega
    · have := a.le_toInt
      have := h .minValue
      rw [Int64.toInt_minValue] at this
      omega
  last_iff a := by
    simp only [Int64.lt_iff_toInt_lt, ← Int64.toInt_inj, Int64.toInt_maxValue]
    refine ⟨fun h k => ?_, fun h => ?_⟩
    · have := k.toInt_lt
      omega
    · have := a.toInt_lt
      have := h .maxValue
      rw [Int64.toInt_maxValue] at this
      omega
  inhabited := ⟨0⟩

instance {α : Type} [LT α] [Spaced α] : Spaced (Descending α) where
  Next a b := Spaced.Next b.value a.value
  First a := Spaced.Last a.value
  Last a := Spaced.First a.value
  next_iff a b := by
    rw [Spaced.next_iff]
    exact and_congr_right fun _ =>
      ⟨fun h k hk hk' => h k.value hk' hk, fun h k hk hk' => h ⟨k⟩ hk' hk⟩
  first_iff a := (Spaced.last_iff a.value).trans ⟨fun h k => h k.value, fun h k => h ⟨k⟩⟩
  last_iff a := (Spaced.first_iff a.value).trans ⟨fun h k => h k.value, fun h k => h ⟨k⟩⟩
  inhabited := (Spaced.inhabited (K := α)).map .mk

theorem lt_append_singleton {α : Type} [LT α] (as : List α) (a : α) : as < as ++ [a] := by
  induction as with
  | nil => exact List.nil_lt_cons a []
  | cons b as ih => exact List.Lex.cons ih

/-- Nothing comes between a text and the same text with a null character after it. -/
theorem not_lt_append_null {cs ds : List Char} (h : cs < ds) : ¬ds < cs ++ ['\x00'] := by
  induction cs generalizing ds with
  | nil =>
    cases ds with
    | nil => exact absurd h (List.not_lt_nil [])
    | cons d ds =>
      intro hlt
      rcases List.cons_lt_cons_iff.1 hlt with hd | ⟨-, hds⟩
      · exact absurd hd (Nat.not_lt_zero _)
      · exact List.not_lt_nil ds hds
  | cons c cs ih =>
    cases ds with
    | nil => exact absurd h (List.not_lt_nil _)
    | cons d ds =>
      intro hlt
      rcases List.cons_lt_cons_iff.1 h with hcd | ⟨rfl, hcs⟩
      · rcases List.cons_lt_cons_iff.1 hlt with hdc | ⟨rfl, -⟩
        · exact Nat.lt_asymm hcd hdc
        · exact Nat.lt_irrefl _ hcd
      · rcases List.cons_lt_cons_iff.1 hlt with hcc | ⟨-, hds⟩
        · exact Nat.lt_irrefl _ hcc
        · exact ih hcs hds

theorem lt_push_null (s : String) : s < s.push '\x00' := by
  rw [String.lt_iff_toList_lt, String.toList_push]
  exact lt_append_singleton ..

/-- A string comes next that has a null character more. -/
instance : Spaced String where
  Next s t := t = s.push '\x00'
  First s := s = ""
  Last _ := False
  next_iff s t := by
    have hnone : ∀ u, s < u → ¬u < s.push '\x00' := fun u hu hlt => by
      rw [String.lt_iff_toList_lt] at hu hlt
      rw [String.toList_push] at hlt
      exact not_lt_append_null hu hlt
    constructor
    · rintro rfl
      exact ⟨lt_push_null s, hnone⟩
    · rintro ⟨hlt, hbetween⟩
      exact Std.le_antisymm (Std.not_lt.1 (hbetween _ (lt_push_null s)))
        (Std.not_lt.1 (hnone t hlt))
  first_iff s := by
    simp only [String.lt_iff_toList_lt]
    constructor
    · rintro rfl u
      exact List.not_lt_nil _
    · intro h
      refine String.toList_inj.1 ?_
      cases hs : s.toList with
      | nil => rfl
      | cons c cs => exact absurd (hs ▸ List.nil_lt_cons c cs) (h "")
  last_iff s := ⟨False.elim, fun h => h _ (lt_push_null s)⟩
  inhabited := ⟨""⟩

/-! ## Ranges of integers and of strings -/

/-- Whatever its bounds, a range is found empty exactly when it holds no key and is no gap: of
integers, of integers from great to small, and of strings. -/
theorem ranges_judged (integers : KeyRange Int64) (reversed : KeyRange (Descending Int64))
    (strings : KeyRange String) : integers.Judged ∧ reversed.Judged ∧ strings.Judged :=
  ⟨integers.judged, reversed.judged, strings.judged⟩

/-- No integer lies between 1 and 2, but the range that leaves out both is not found empty. -/
theorem gap_not_isEmpty :
    ∃ r : KeyRange Int64, KeyRange.ofBounds (.excluded 1) (.excluded 2) = .ok r ∧
      (∀ k, r.contains k = false) ∧ r.isEmpty = false := by
  have hgap : KeyRange.Gap (⟨.excluded 1, .excluded 2⟩ : KeyRange Int64) :=
    show (1 : Int64).toInt + 1 = (2 : Int64).toInt by decide
  exact ⟨_, rfl, hgap.not_contains, hgap.not_isEmpty⟩

end SharedCells
