/-!
# Lists with distinct keys

Lists no two members of which have one key, the content of a map or set that keeps the order of
arrival. A member with a key that is there takes the place of the old one; any other goes to the
end.

* `insert_distinct`, `erase_distinct`: the operations keep the keys distinct.
-/

namespace SharedCells.Store.Distinct

variable {K α : Type}

/-- No two members have one key. -/
def Keyed (key : α → K) (as : List α) : Prop := (as.map key).Nodup

theorem Keyed.sublist {key : α → K} {as bs : List α} (h : Keyed key as) (hs : bs.Sublist as) :
    Keyed key bs :=
  List.Pairwise.sublist (hs.map key) h

variable [DecidableEq K]

def find? (key : α → K) (k : K) (as : List α) : Option α := as.find? fun a => key a = k

/-- Puts a member in the place of one with the same key, or at the end. -/
def insert (key : α → K) (a : α) : List α → List α
  | [] => [a]
  | b :: bs => if key b = key a then a :: bs else b :: insert key a bs

/-- Drops the member with a key. -/
def erase (key : α → K) (k : K) (as : List α) : List α := as.filter fun a => key a ≠ k

theorem erase_distinct {key : α → K} (k : K) {as : List α} (h : Keyed key as) :
    Keyed key (erase key k as) :=
  h.sublist List.filter_sublist

theorem map_insert (key : α → K) (a : α) (as : List α) :
    (insert key a as).map key =
      if key a ∈ as.map key then as.map key else as.map key ++ [key a] := by
  fun_induction insert key a as <;> grind

theorem insert_distinct {key : α → K} (a : α) {as : List α} (h : Keyed key as) :
    Keyed key (insert key a as) := by
  unfold Keyed at h ⊢
  rw [map_insert]
  split <;> grind

end SharedCells.Store.Distinct
