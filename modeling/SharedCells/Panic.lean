/-!
# Panics

User code handed to a cell (a copy function, a mutation, a predicate, an initializer) may give
up half way. It then throws a `Panic`, which carries the message that it gave up with.
-/

namespace SharedCells

/-- What user code throws when it gives up. -/
structure Panic where
  /-- The text that the code gave up with. -/
  message : String
deriving DecidableEq

end SharedCells
