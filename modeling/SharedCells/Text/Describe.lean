import SharedCells.Descending
import SharedCells.KeyRange
import SharedCells.Text.Quoted

/-!
# Descriptions

`Describe α` gives every value of `α` a one-line text for people to read. Lists are written
`[a, b]`, sets `{a, b}`, maps `{k: v}`, pairs `(a, b)` and records `Name { field: value }`.
-/

namespace SharedCells.Text

/-- Values that have a one-line text. -/
class Describe (α : Type) where
  describe : α → String

export Describe (describe)

/-- Texts with a comma and a space between them. -/
def listed (texts : List String) : String := ", ".intercalate texts

def bracketed (texts : List String) : String := "[" ++ listed texts ++ "]"

def braced (texts : List String) : String := "\x7b" ++ listed texts ++ "\x7d"

def paired (a b : String) : String := "(" ++ a ++ ", " ++ b ++ ")"

/-- The text of a value under a name. -/
def wrapped (name text : String) : String := name ++ "(" ++ text ++ ")"

/-- The text of an entry of a map. -/
def entered (key value : String) : String := key ++ ": " ++ value

def record (name : String) (fields : List (String × String)) : String :=
  name ++ " \x7b " ++ listed (fields.map fun (field, text) => entered field text) ++ " \x7d"

instance : Describe Bool := ⟨fun b => if b then "true" else "false"⟩

instance : Describe Nat := ⟨Nat.repr⟩

instance : Describe Int64 := ⟨fun n => Int.repr n.toInt⟩

instance : Describe String := ⟨quote⟩

instance {α : Type} [Describe α] : Describe (Descending α) :=
  ⟨fun a => wrapped "Reverse" (describe a.value)⟩

instance {α β : Type} [Describe α] [Describe β] : Describe (α × β) :=
  ⟨fun (a, b) => paired (describe a) (describe b)⟩

instance {α : Type} [Describe α] : Describe (List α) := ⟨fun as => bracketed (as.map describe)⟩

instance {K : Type} [Describe K] : Describe (Bound K) where
  describe
    | .included k => wrapped "Included" (describe k)
    | .excluded k => wrapped "Excluded" (describe k)
    | .unbounded => "Unbounded"

instance {K : Type} [Describe K] : Describe (KeyRange K) where
  describe r := record "KeyRange" [("lower", describe r.lower), ("upper", describe r.upper)]

/-- The text of the entries of a map. -/
def describeMap {K V : Type} [Describe K] [Describe V] (entries : List (K × V)) : String :=
  braced (entries.map fun (k, v) => entered (describe k) (describe v))

/-- The text of the items of a set. -/
def describeSet {α : Type} [Describe α] (items : List α) : String := braced (items.map describe)

end SharedCells.Text
