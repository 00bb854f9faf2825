/-!
# Backing off

A caller that lost a compare-and-set pauses before it tries again, the longer the more attempts
it has lost. The policy bounds the pause by a power of two and says from when on the caller also
yields to others.

* `Backoff.pause` is the pause after a given number of lost attempts.
* `Backoff.next` counts lost attempts and stops at the greatest count.
-/

namespace SharedCells.Cas

/-- When to pause and for how long. -/
structure Backoff where
  /-- The greatest exponent of the spin count. -/
  maxSpinShift : UInt32
  /-- The number of lost attempts after which a caller also yields. -/
  yieldAfter : UInt32
deriving DecidableEq

structure Pause where
  /-- How often the caller spins. -/
  spins : UInt32
  /-- Whether the caller then yields to others. -/
  yields : Bool
  /-- Whether this is the first pause in which it yields. -/
  announces : Bool
deriving DecidableEq

namespace Backoff

/-- The policy of a caller that asks for none in particular. -/
def standard : Backoff := ⟨6, 10⟩

/-- The places by which one is shifted to get the spin count. -/
def shift (b : Backoff) (attempt : UInt32) : UInt32 := min (min attempt b.maxSpinShift) 31

/-- The pause after an attempt, given how many attempts were lost before it. -/
def pause (b : Backoff) (attempt : UInt32) : Pause :=
  let yields := decide (b.yieldAfter < attempt)
  ⟨1 <<< b.shift attempt, yields, yields && attempt == b.yieldAfter + 1⟩

/-- One more lost attempt, up to the greatest count. -/
def next (attempt : UInt32) : UInt32 := if attempt = 0xffffffff then attempt else attempt + 1

end Backoff

end SharedCells.Cas
