/-!
# Refusals

A view of a collection refuses an operation for one of four causes. `ViewError.message` words
them, and `ViewError.isInvalidArgument` says which ones blame an argument.
-/

namespace SharedCells

/-- The views of a map that accept no insertion. -/
inductive View where
  | keys
  | values
  | entries
deriving DecidableEq

/-- The insertions that a view of a map may be asked for. -/
inductive Insertion where
  | insert
  | insertAll
deriving DecidableEq

/-- Why an operation on a view was refused. -/
inductive ViewError where
  /-- The key lies outside the range of the view. -/
  | keyOutOfRange
  /-- The bounds asked for are inverted. -/
  | invalidRange
  /-- The view has no such operation. -/
  | unsupported (view : View) (operation : Insertion)
  /-- The cursor has nothing to remove. -/
  | noCurrentElement
deriving DecidableEq

def View.words : View → String
  | .keys => "key set"
  | .values => "values view"
  | .entries => "entry set"

def Insertion.words : Insertion → String
  | .insert => "insert"
  | .insertAll => "insert_all"

namespace ViewError

def message : ViewError → String
  | keyOutOfRange => "key is outside the range of this view"
  | invalidRange => "invalid key range: lower bound is greater than upper bound"
  | unsupported view operation => view.words ++ " does not support " ++ operation.words
  | noCurrentElement => "cursor has no current element to remove"

/-- Whether the refusal blames an argument of the call. -/
def isInvalidArgument : ViewError → Bool
  | keyOutOfRange | invalidRange => true
  | unsupported .. | noCurrentElement => false

end ViewError

end SharedCells
