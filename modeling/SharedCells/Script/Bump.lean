import SharedCells.Descending

/-!
# Bumped values

A copy function that does not copy faithfully shows how often it was called. `bump` changes a
value a little: integers grow by one and wrap around, texts get an apostrophe at the end.
-/

namespace SharedCells.Script

/-- Values that an unfaithful copy changes. -/
class Bump (α : Type) where
  bump : α → α

export Bump (bump)

instance : Bump Int64 := ⟨fun n => n + 1⟩

instance : Bump String := ⟨fun s => s ++ "'"⟩

instance : Bump Float := ⟨fun x => x + 1.0⟩

instance {α : Type} [Bump α] : Bump (Descending α) := ⟨fun a => ⟨bump a.value⟩⟩

instance {α : Type} [Bump α] : Bump (List α) := ⟨List.map bump⟩

end SharedCells.Script
