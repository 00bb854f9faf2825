import SharedCells.Proofs.Store.Lawful

/-!
# The part of a sorted store between two bounds

A scan of a sorted store skips the entries below the lower bound and stops at the first one
beyond the upper bound, if a comparison of the bound keys does not rule out every entry before.
A single key is tested against both bounds instead. `range_eq_filter` says that the two agree:
a scan lists exactly the entries whose keys pass the test, for every pair of bounds.
-/

namespace SharedCells

/-! ## Bounds -/

namespace Bound

variable {K : Type} [LE K] [LT K] [DecidableLE K] [DecidableLT K] [Std.IsLinearOrder K]
  [Std.LawfulOrderLT K]

theorem below_of_lt {lower : Bound K} {k k' : K} (hlt : k < k') (h : lower.below k = true) :
    lower.below k' = true := by
  cases lower with
  | included low =>
    have hlow : low ≤ k := of_decide_eq_true h
    exact decide_eq_true (Std.le_trans hlow (Std.le_of_lt hlt))
  | excluded low => exact decide_eq_true (Std.lt_trans (of_decide_eq_true h) hlt)
  | unbounded => rfl

theorem above_of_lt {upper : Bound K} {k k' : K} (hlt : k < k') (h : upper.above k' = true) :
    upper.above k = true := by
  cases upper with
  | included high =>
    have hhigh : k' ≤ high := of_decide_eq_true h
    exact decide_eq_true (Std.le_trans (Std.le_of_lt hlt) hhigh)
  | excluded high => exact decide_eq_true (Std.lt_trans hlt (of_decide_eq_true h))
  | unbounded => rfl

/-- No key lies between two bounds that a comparison of their keys finds empty. -/
theorem not_between_of_empties {lower upper : Bound K} (h : lower.empties upper = true) (k : K) :
    (lower.below k && upper.above k) = false := by
  rw [Bool.and_eq_false_imp]
  intro hbelow
  refine Bool.eq_false_iff.2 fun habove => ?_
  cases lower with
  | unbounded => cases upper <;> cases h
  | included low =>
    have hlow : low ≤ k := of_decide_eq_true hbelow
    cases upper with
    | unbounded => cases h
    | included high =>
      have hhigh : k ≤ high := of_decide_eq_true habove
      exact Std.not_lt.2 (Std.le_trans hlow hhigh) (of_decide_eq_true h)
    | excluded high =>
      have hhigh : k < high := of_decide_eq_true habove
      exact Std.not_le.2 (Std.lt_of_le_of_lt hlow hhigh) (of_decide_eq_true h)
  | excluded low =>
    have hlow : low < k := of_decide_eq_true hbelow
    cases upper with
    | unbounded => cases h
    | included high =>
      have hhigh : k ≤ high := of_decide_eq_true habove
      exact Std.not_le.2 (Std.lt_of_lt_of_le hlow hhigh) (of_decide_eq_true h)
    | excluded high =>
      have hhigh : k < high := of_decide_eq_true habove
      exact Std.not_le.2 (Std.lt_trans hlow hhigh) (of_decide_eq_true h)

end Bound

/-! ## Scans -/

namespace Store

section Ordered

variable {α : Type} {R : α → α → Prop} {p : α → Bool} {as : List α}

/-- Where a test fails from some member on, reading up to there keeps what passes. -/
theorem takeWhile_eq_filter (h : as.Pairwise R) (hp : ∀ a b, R a b → p b = true → p a = true) :
    as.takeWhile p = as.filter p := by
  induction h with
  | nil => rfl
  | @cons a as hfirst _ ih =>
    cases ha : p a with
    | true => rw [List.takeWhile_cons_of_pos ha, List.filter_cons_of_pos ha, ih]
    | false =>
      rw [List.takeWhile_cons_of_neg (by simp [ha]), List.filter_cons_of_neg (by simp [ha])]
      refine (List.filter_eq_nil_iff.2 fun b hb hpb => ?_).symm
      rw [hp a b (hfirst b hb) hpb] at ha
      cases ha

/-- Where a test passes from some member on, skipping up to there keeps what passes. -/
theorem dropWhile_eq_filter (h : as.Pairwise R) (hp : ∀ a b, R a b → p a = true → p b = true) :
    (as.dropWhile fun a => !p a) = as.filter p := by
  induction h with
  | nil => rfl
  | @cons a as hfirst _ ih =>
    cases ha : p a with
    | true =>
      have hall : ∀ b ∈ as, p b = true := fun b hb => hp a b (hfirst b hb) ha
      rw [List.dropWhile_cons_of_neg (by simp [ha]), List.filter_cons_of_pos ha,
        List.filter_eq_self.2 hall]
    | false =>
      rw [List.dropWhile_cons_of_pos (by simp [ha]), List.filter_cons_of_neg (by simp [ha]), ih]

end Ordered

variable {K V : Type} [LE K] [LT K] [DecidableLE K] [DecidableLT K] [Std.IsLinearOrder K]
  [Std.LawfulOrderLT K]

theorem Ascending.slice_eq_filter {α : Type} {key : α → K} {lower upper : Bound K} {as : List α}
    (hsliceable : lower.Sliceable upper) (h : Sorted key as) :
    slice key lower upper as hsliceable =
      as.filter fun a => lower.below (key a) && upper.above (key a) := by
  rw [slice, dropWhile_eq_filter h fun a b hab => Bound.below_of_lt hab,
    takeWhile_eq_filter (h.filter _) fun a b hab => Bound.above_of_lt hab, List.filter_filter]
  exact List.filter_congr fun a _ => Bool.and_comm _ _

/-- A scan lists the entries whose keys lie between the bounds. -/
theorem SortedMap.range_eq_filter (m : SortedMap K V) (lower upper : Bound K) :
    m.range lower upper =
      m.entries.filter fun e => lower.below e.1 && upper.above e.1 := by
  unfold range
  split
  · rename_i hempties
    refine (List.filter_eq_nil_iff.2 fun e _ => ?_).symm
    simp [Bound.not_between_of_empties hempties e.1]
  · exact Ascending.slice_eq_filter _ m.ascending

end Store

end SharedCells
