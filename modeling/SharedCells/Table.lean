/-!
# Tables

A table holds one row for every number. All but finitely many rows are alike, so there is no end
to the numbers that may be used, and looking up or setting a row never fails.

* `get_set` is the law of a table.
-/

namespace SharedCells

structure Table (α : Type) where
  /-- The row of every number beyond the list. -/
  blank : α
  /-- The rows of the first numbers. -/
  rows : List α

namespace Table

variable {α : Type}

/-- The table whose rows are all alike. -/
def of (blank : α) : Table α := ⟨blank, []⟩

def get (t : Table α) (i : Nat) : α := t.rows[i]?.getD t.blank

/-- The table with another row for a number. -/
def set (t : Table α) (i : Nat) (a : α) : Table α :=
  if i < t.rows.length then { t with rows := t.rows.set i a }
  else { t with rows := t.rows ++ List.replicate (i - t.rows.length) t.blank ++ [a] }

/-- The table with the row of a number changed. -/
def update (t : Table α) (i : Nat) (f : α → α) : Table α := t.set i (f (t.get i))

@[simp] theorem get_of (blank : α) (i : Nat) : (of blank).get i = blank := rfl

theorem get_of_length_le {t : Table α} {i : Nat} (h : t.rows.length ≤ i) : t.get i = t.blank := by
  rw [get, List.getElem?_eq_none h]
  rfl

/-- Every row is one of the list, or it is the blank one. -/
theorem get_mem (t : Table α) (i : Nat) : t.get i ∈ t.blank :: t.rows := by
  rcases Nat.lt_or_ge i t.rows.length with hi | hi
  · rw [get, List.getElem?_eq_getElem hi]
    exact List.mem_cons_of_mem _ (List.getElem_mem hi)
  · rw [get_of_length_le hi]
    exact List.mem_cons_self

@[simp] theorem get_set (t : Table α) (i j : Nat) (a : α) :
    (t.set i a).get j = if j = i then a else t.get j := by
  unfold set get
  split
  · by_cases h : j = i <;> grind
  · by_cases h : j = i <;> grind

@[simp] theorem get_update (t : Table α) (i j : Nat) (f : α → α) :
    (t.update i f).get j = if j = i then f (t.get i) else t.get j :=
  get_set t i j _

end Table

end SharedCells
