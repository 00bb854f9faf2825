import SharedCells.Panic

/-!
# Scripted predicates

A script names the predicate of a `retain` call by a term of `Keep`. Such a predicate is asked
about a key, a value or both, and knows how many questions came before in the same call.

* `Keep.ask` answers one question.
-/

namespace SharedCells.Script

/-- A predicate on keys and values. -/
inductive Keep (K V : Type) where
  | all
  | none
  | keyBelow (k : K)
  | keyFrom (k : K)
  | keyAmong (ks : List K)
  | valueIs (v : V)
  | valueAmong (vs : List V)
  | not (other : Keep K V)
  /-- Keeps every other one, starting with the first. -/
  | alternate
  /-- Keeps nothing, and panics once so many questions were asked. -/
  | panicAfter (questions : Nat)

namespace Keep

variable {K V : Type} [LE K] [LT K] [DecidableLE K] [DecidableLT K] [DecidableEq K] [BEq V]

/-- Answers a question; a key or a value that is not given satisfies no test of it. -/
def ask (asked : Nat) (k? : Option K) (v? : Option V) : Keep K V → Except Panic Bool
  | all => .ok true
  | none => .ok false
  | keyBelow x => .ok (k?.any fun k => decide (k < x))
  | keyFrom x => .ok (k?.any fun k => decide (x ≤ k))
  | keyAmong xs => .ok (k?.any fun k => decide (k ∈ xs))
  | valueIs x => .ok (v?.any fun v => v == x)
  | valueAmong xs => .ok (v?.any fun v => xs.any fun x => x == v)
  | not other => (other.ask asked k? v?).map Bool.not
  | alternate => .ok (asked % 2 == 0)
  | panicAfter n => if asked < n then .ok false else .error ⟨"predicate panic"⟩

end Keep

end SharedCells.Script
