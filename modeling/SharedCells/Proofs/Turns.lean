import Mathlib.Data.List.Perm.Basic

/-!
# Work shared out among threads

Each thread has a list of things to do and takes them from the front.
-/

namespace SharedCells

variable {α : Type}

/-- What is taken from the front of one list is missing from all of them together. -/
theorem flatten_modify_tail {as : List (List α)} {i : Nat} {a : α} {rest : List α}
    (h : as[i]? = some (a :: rest)) :
    as.flatten.Perm (a :: (as.modify i List.tail).flatten) := by
  induction as generalizing i with
  | nil => cases h
  | cons b as ih =>
    cases i with
    | zero =>
      cases h
      exact .refl _
    | succ i =>
      have hrest := (ih h).append_left b
      exact hrest.trans List.perm_middle

/-- What a function shows of a list after a change of one member. -/
theorem map_modify {β : Type} {as : List α} {i : Nat} {f : α → α} {g : α → β} {f' : β → β}
    (h : ∀ a, as[i]? = some a → g (f a) = f' (g a)) :
    (as.modify i f).map g = (as.map g).modify i f' := by
  refine List.ext_getElem? fun j => ?_
  rw [List.getElem?_map, List.getElem?_modify, List.getElem?_modify, List.getElem?_map]
  by_cases hij : i = j
  · subst hij
    cases ha : as[i]? with
    | none => rfl
    | some a => simp [h a ha]
  · simp [hij]

/-- The members of a list after a change of one of them. -/
theorem mem_modify {as : List α} {i : Nat} {f : α → α} {b : α} (hb : b ∈ as.modify i f) :
    b ∈ as ∨ ∃ a, as[i]? = some a ∧ b = f a := by
  obtain ⟨j, hj⟩ := List.mem_iff_getElem?.1 hb
  rw [List.getElem?_modify] at hj
  by_cases hij : i = j
  · subst hij
    cases ha : as[i]? with
    | none => simp [ha] at hj
    | some a => exact Or.inr ⟨a, rfl, by simpa [ha] using hj.symm⟩
  · exact Or.inl (List.mem_of_getElem? (by simpa [hij] using hj))

end SharedCells
