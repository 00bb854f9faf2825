import Mathlib.Algebra.Group.Nat.Defs
import Mathlib.Data.UInt
import SharedCells.Cas.Backoff

/-!
# Pauses in words

The length of a pause and the count of lost attempts are worked out in words of 32 bits. Whatever
the policy, and however many attempts were lost, nothing overflows on the way.

* `Backoff.shiftLeft?` and `Backoff.add?` are the operations on words that may overflow;
  `Backoff.pause?` and `Backoff.next?` are made of them.
* `Backoff.counted` is the count after a number of lost attempts, up to the greatest word.
* `Backoff.fits` says what a pause comes to, in terms of that number.
-/

namespace SharedCells.Cas.Backoff

/-- A shift, by less than the width of a word. -/
def shiftLeft? (v w : UInt32) : Option UInt32 := if w < 32 then some (v <<< w) else none

/-- A sum, if it is a word. -/
def add? (v w : UInt32) : Option UInt32 :=
  if v.toNat + w.toNat ≤ 0xffffffff then some (v + w) else none

/-- The pause after an attempt, unless a shift or a sum overflows on the way. -/
def pause? (b : Backoff) (attempt : UInt32) : Option Pause := do
  let spins ← shiftLeft? 1 (b.shift attempt)
  if b.yieldAfter < attempt then
    let threshold ← add? b.yieldAfter 1
    some ⟨spins, true, attempt == threshold⟩
  else
    some ⟨spins, false, false⟩

/-- One more lost attempt, unless the sum overflows. -/
def next? (attempt : UInt32) : Option UInt32 :=
  if attempt = 0xffffffff then some attempt else add? attempt 1

/-- The count after so many lost attempts. -/
def counted (n : Nat) : UInt32 := .ofNat (min n 0xffffffff)

theorem toNat_counted (n : Nat) : (counted n).toNat = min n 0xffffffff := by
  rw [counted, UInt32.toNat_ofNat_of_lt']
  have hsize : UInt32.size = 4294967296 := rfl
  omega

theorem toNat_lt_of_ne {v : UInt32} (h : v ≠ 0xffffffff) : v.toNat < 0xffffffff := by
  have hne : v.toNat ≠ 0xffffffff := fun heq => h (UInt32.toNat_inj.1 heq)
  have hlt := v.toNat_lt
  omega

theorem next_counted (n : Nat) : next (counted n) = counted (n + 1) := by
  have hn := toNat_counted n
  have hsucc := toNat_counted (n + 1)
  refine UInt32.toNat_inj.1 ?_
  rw [next]
  split
  · rename_i hmax
    have hword : (counted n).toNat = 0xffffffff := by rw [hmax]; rfl
    omega
  · rename_i hmax
    have hword := toNat_lt_of_ne hmax
    have hone : (1 : UInt32).toNat = 1 := rfl
    rw [UInt32.toNat_add]
    omega

theorem next?_eq (attempt : UInt32) : next? attempt = some (next attempt) := by
  rw [next?, next]
  split
  · rfl
  · rename_i hmax
    have hword := toNat_lt_of_ne hmax
    exact if_pos hword

theorem toNat_shift (b : Backoff) (attempt : UInt32) :
    (b.shift attempt).toNat = min (min attempt.toNat b.maxSpinShift.toNat) 31 := by
  rw [shift, UInt32.toNat_min, UInt32.toNat_min]
  rfl

theorem shift_lt (b : Backoff) (attempt : UInt32) : b.shift attempt < 32 := by
  have htoNat := b.toNat_shift attempt
  rw [UInt32.lt_iff_toNat_lt]
  have hwidth : (32 : UInt32).toNat = 32 := rfl
  omega

theorem pause?_eq (b : Backoff) (attempt : UInt32) : b.pause? attempt = some (b.pause attempt) := by
  rw [pause?, pause, shiftLeft?, if_pos (b.shift_lt attempt)]
  by_cases hyields : b.yieldAfter < attempt
  · have hlt := UInt32.lt_iff_toNat_lt.1 hyields
    have hmax := attempt.toNat_lt
    have hadd : add? b.yieldAfter 1 = some (b.yieldAfter + 1) := by
      have hone : (1 : UInt32).toNat = 1 := rfl
      exact if_pos (by omega)
    simp [hyields, hadd]
  · simp [hyields]

theorem toNat_spins (b : Backoff) (attempt : UInt32) :
    (b.pause attempt).spins.toNat = 2 ^ (b.shift attempt).toNat := by
  have hlt : (b.shift attempt).toNat < 32 := UInt32.lt_iff_toNat_lt.1 (b.shift_lt attempt)
  have hone : (1 : UInt32).toNat = 1 := rfl
  rw [pause, UInt32.toNat_shiftLeft, Nat.mod_eq_of_lt hlt, Nat.shiftLeft_eq, hone, Nat.one_mul]
  exact Nat.mod_eq_of_lt (Nat.pow_lt_pow_right (by decide) hlt)

/-- After so many lost exchanges nothing overflows. -/
structure Fits (b : Backoff) (n : Nat) : Prop where
  shift : (b.shift (counted n)).toNat < 32
  /-- The bound on attempts without yielding is counted up only where it is not the greatest. -/
  threshold : b.yieldAfter < counted n → b.yieldAfter.toNat + 1 ≤ 0xffffffff
  pause : b.pause? (counted n) = some (b.pause (counted n))
  spins : (b.pause (counted n)).spins.toNat = 2 ^ min (min n b.maxSpinShift.toNat) 31
  yields : (b.pause (counted n)).yields ↔ b.yieldAfter.toNat < min n 0xffffffff
  next : next? (counted n) = some (counted (n + 1))
  /-- The count stops at the greatest word. -/
  count : (counted n).toNat = min n 0xffffffff

theorem fits (b : Backoff) (n : Nat) : b.Fits n := by
  have hcount := toNat_counted n
  have hshift := b.toNat_shift (counted n)
  have hspinShift := b.maxSpinShift.toNat_lt
  refine ⟨by omega, fun hyields => ?_, b.pause?_eq _, ?_, ?_, ?_, hcount⟩
  · have hlt := UInt32.lt_iff_toNat_lt.1 hyields
    omega
  · rw [toNat_spins]
    congr 1
    omega
  · rw [pause, decide_eq_true_iff, UInt32.lt_iff_toNat_lt, hcount]
  · rw [next?_eq, next_counted]

/-- The greatest bound is never exceeded, and so it is not counted up. -/
example : pause? ⟨0xffffffff, 0xffffffff⟩ 0xffffffff = some ⟨0x80000000, false, false⟩ := by
  decide

end SharedCells.Cas.Backoff
