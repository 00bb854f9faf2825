import SharedCells.Cas.Race

/-!
# What functions are given and what they make

The function of a call runs anew for every candidate. A `Proposal` is one such run, and
`Race.proposals` lists those of one caller in the course of a schedule.
-/

namespace SharedCells.Cas

/-- One run of the function of a call: the value that it was given, and what it made of it. -/
structure Proposal (V : Type) where
  current : V
  made : Except Panic V

namespace Race

variable {σ V : Type}

/-- The run of its function that the next step of a caller is, if it is one. -/
def proposal? (r : Race σ V) (i : Nat) : Option (Proposal V) :=
  match r.callers[i]? with
  | some ⟨.proposing current, _, _, call :: _, _⟩ =>
    some ⟨current, (call.propose r.state current).1⟩
  | _ => none

/-- The run of the function of a caller that a turn is, if it is one. -/
def proposalOn (r : Race σ V) (i : Nat) : Turn V → Option (Proposal V)
  | .caller j => if j = i then r.proposal? i else none
  | .rival _ => none

/-- The only call of a race has not ended. -/
def Unanswered (r : Race σ V) : Prop := r.callers.map Caller.answers = [[]]

/-- The only call of a race has ended. -/
def Answered (r : Race σ V) (o : Except Panic V) : Prop := r.callers.map Caller.answers = [[o]]

variable [DecidableEq V]

/-- The runs of the function of a caller in the course of a schedule, the first one first. -/
def proposals (r : Race σ V) (i : Nat) : List (Turn V) → List (Proposal V)
  | [] => []
  | turn :: turns => (r.proposalOn i turn).toList ++ (r.step turn).proposals i turns

theorem run_append (r : Race σ V) (turns turns' : List (Turn V)) :
    r.run (turns ++ turns') = (r.run turns).run turns' :=
  List.foldl_append

theorem proposals_append (r : Race σ V) (i : Nat) (turns turns' : List (Turn V)) :
    r.proposals i (turns ++ turns') = r.proposals i turns ++ (r.run turns).proposals i turns' := by
  induction turns generalizing r with
  | nil => rfl
  | cons turn turns ih =>
    rw [List.cons_append, proposals, ih, ← List.append_assoc]
    rfl

theorem proposals_concat (r : Race σ V) (i : Nat) (turns : List (Turn V)) (turn : Turn V) :
    r.proposals i (turns ++ [turn]) =
      r.proposals i turns ++ ((r.run turns).proposalOn i turn).toList := by
  rw [proposals_append, proposals, proposals, List.append_nil]

end Race

end SharedCells.Cas
