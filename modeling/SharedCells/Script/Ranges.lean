import SharedCells.Digest.Fingerprint
import SharedCells.KeyRange
import SharedCells.Script.Run
import SharedCells.Text.Describe

/-!
# Scripts over key ranges

The objects of such a script are key ranges. `RangeRequest.run` answers a script.
-/

namespace SharedCells.Script

/-- A request to a family of key ranges. -/
inductive RangeRequest (K : Type) where
  | full
  | new (lower upper : Bound K)
  | narrow (i : Nat) (lower upper : Bound K)
  | clone (i : Nat)
  | contains (i : Nat) (k : K)
  | isEmpty (i : Nat)
  | equal (i j : Nat)
  | digest (i : Nat)
  | describe (i : Nat)

/-- The answer to such a request. -/
inductive RangeAnswer (K : Type) where
  | range (i : Nat) (r : KeyRange K)
  | refused (e : ViewError)
  | flag (b : Bool)
  | digest (d : UInt64)
  | text (s : String)

namespace RangeRequest

variable {K : Type} [LE K] [LT K] [DecidableLE K] [DecidableLT K] [DecidableEq K]
  [Text.Describe K] [Digest.Fingerprint K]

/-- Enters a range that was made, or reports the refusal. -/
def entered (ranges : List (KeyRange K)) :
    Except ViewError (KeyRange K) → RangeAnswer K × List (KeyRange K)
  | .error e => (.refused e, ranges)
  | .ok r =>
    let (i, ranges) := enter ranges r
    (.range i r, ranges)

def step (ranges : List (KeyRange K)) :
    RangeRequest K → Option (RangeAnswer K × List (KeyRange K))
  | full => some (entered ranges (.ok .full))
  | new lower upper => some (entered ranges (KeyRange.ofBounds lower upper))
  | narrow i lower upper => do
    let r ← ranges[i]?
    some (entered ranges (r.narrow lower upper))
  | clone i => do
    let r ← ranges[i]?
    some (entered ranges (.ok r))
  | contains i k => do
    let r ← ranges[i]?
    some (.flag (r.contains k), ranges)
  | isEmpty i => do
    let r ← ranges[i]?
    some (.flag r.isEmpty, ranges)
  | equal i j => do
    let r ← ranges[i]?
    let r' ← ranges[j]?
    some (.flag (decide (r = r')), ranges)
  | digest i => do
    let r ← ranges[i]?
    some (.digest (Digest.fingerprint r), ranges)
  | describe i => do
    let r ← ranges[i]?
    some (.text (Text.describe r), ranges)

def run (requests : List (RangeRequest K)) : Option (List (RangeAnswer K)) :=
  runAll step [] requests

end RangeRequest

end SharedCells.Script
