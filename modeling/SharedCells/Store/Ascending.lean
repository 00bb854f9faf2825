import SharedCells.KeyRange

/-!
# Ascending lists

Lists whose members have strictly ascending keys, the content of a sorted map or set. A member
is found, put in or dropped by walking up to the first key that is not smaller. `slice` cuts out
the part between two bounds from its two ends.

* `insert_ascending`, `erase_sublist`: the operations keep the order.
-/

namespace SharedCells.Store.Ascending

variable {K α : Type} [LT K] [DecidableLT K]

/-- The keys of the members grow from each to all later ones. -/
def Sorted (key : α → K) (as : List α) : Prop := as.Pairwise fun a b => key a < key b

def find? (key : α → K) (k : K) : List α → Option α
  | [] => none
  | a :: as =>
    if key a < k then find? key k as
    else if k < key a then none
    else some a

/-- Puts a member in its place, instead of one with the same key. -/
def insert (key : α → K) (a : α) : List α → List α
  | [] => [a]
  | b :: bs =>
    if key b < key a then b :: insert key a bs
    else if key a < key b then a :: b :: bs
    else a :: bs

/-- Drops the member with a key. -/
def erase (key : α → K) (k : K) : List α → List α
  | [] => []
  | b :: bs =>
    if key b < k then b :: erase key k bs
    else if k < key b then b :: bs
    else bs

section Slice

variable [LE K] [DecidableLE K]

/-- The members between two bounds: those below the lower one are skipped, and the rest is
read up to the first one beyond the upper. -/
def slice (key : α → K) (lower upper : Bound K) (as : List α) (_ : lower.Sliceable upper) :
    List α :=
  (as.dropWhile fun a => !lower.below (key a)).takeWhile fun a => upper.above (key a)

end Slice

theorem erase_sublist (key : α → K) (k : K) (as : List α) : (erase key k as).Sublist as := by
  fun_induction erase key k as with
  | case1 => exact .slnil
  | case2 b bs _ ih => exact ih.cons_cons b
  | case3 => exact .refl _
  | case4 b bs => exact .cons b (.refl bs)

theorem mem_insert {key : α → K} {a x : α} {as : List α} (h : x ∈ insert key a as) :
    x = a ∨ x ∈ as := by
  fun_induction insert key a as with
  | case1 => simp_all
  | case2 b bs _ ih => grind
  | case3 => simp_all
  | case4 => grind

theorem insert_ascending [LE K] [Std.IsLinearOrder K] [Std.LawfulOrderLT K] {key : α → K} (a : α)
    {as : List α} (h : Sorted key as) : Sorted key (insert key a as) := by
  unfold Sorted at h ⊢
  fun_induction insert key a as with
  | case1 => simp
  | case2 b bs hb ih =>
    rw [List.pairwise_cons] at h ⊢
    refine ⟨fun x hx => ?_, ih h.2⟩
    rcases mem_insert hx with rfl | hx
    · exact hb
    · exact h.1 x hx
  | case3 b bs _ ha =>
    rw [List.pairwise_cons] at h
    exact List.pairwise_cons.2 ⟨fun x hx => by grind, List.pairwise_cons.2 h⟩
  | case4 b bs hb ha =>
    rw [List.pairwise_cons] at h ⊢
    exact ⟨fun x hx => by have := h.1 x hx; grind, h.2⟩

end SharedCells.Store.Ascending
