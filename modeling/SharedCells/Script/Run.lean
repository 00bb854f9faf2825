import SharedCells.Panic

/-!
# Scripts

A script is a list of requests to objects that are made on the way and named by their index.
`runThrough` answers the requests of a script in order. A request that names an object which was
never made has no answer, and then the script has none.
-/

namespace SharedCells.Script

variable {σ α β : Type}

/-- Answers requests one after another, and gives the objects that are left. -/
def runThrough (step : σ → α → Option (β × σ)) : σ → List α → Option (List β × σ)
  | s, [] => some ([], s)
  | s, a :: as =>
    match step s a with
    | none => none
    | some (b, s) => (runThrough step s as).map fun (bs, s) => (b :: bs, s)

def runAll (step : σ → α → Option (β × σ)) (s : σ) (as : List α) : Option (List β) :=
  (runThrough step s as).map Prod.fst

/-- Puts a new object at the end of its list and gives its index. -/
def enter (objects : List α) (a : α) : Nat × List α := (objects.length, objects ++ [a])

/-- The panic of a program that has waited for threads of which one has panicked. -/
def threadPanic : Panic := ⟨"a scoped thread panicked"⟩

end SharedCells.Script
