/-!
# Reversed order

`Descending α` holds a value of `α` and compares it the other way round, so that a sorted
collection of such keys runs from the greatest value to the least. The reversed order is linear
when the order of `α` is.
-/

namespace SharedCells

/-- A value that is ordered from great to small. -/
structure Descending (α : Type) where
  value : α
deriving DecidableEq

namespace Descending

variable {α : Type}

instance [LE α] : LE (Descending α) := ⟨fun a b => b.value ≤ a.value⟩

instance [LT α] : LT (Descending α) := ⟨fun a b => b.value < a.value⟩

instance [LE α] [DecidableLE α] : DecidableLE (Descending α) :=
  fun a b => inferInstanceAs (Decidable (b.value ≤ a.value))

instance [LT α] [DecidableLT α] : DecidableLT (Descending α) :=
  fun a b => inferInstanceAs (Decidable (b.value < a.value))

instance [LE α] [Std.IsLinearOrder α] : Std.IsLinearOrder (Descending α) where
  le_refl a := Std.le_refl a.value
  le_trans _ _ _ h₁ h₂ := Std.le_trans (α := α) h₂ h₁
  le_antisymm a b h₁ h₂ := by
    cases a; cases b
    exact congrArg _ (Std.le_antisymm (α := α) h₂ h₁)
  le_total a b := Std.le_total (a := b.value) (b := a.value)

instance [LE α] [LT α] [Std.LawfulOrderLT α] : Std.LawfulOrderLT (Descending α) where
  lt_iff a b := Std.LawfulOrderLT.lt_iff b.value a.value

end Descending

end SharedCells
