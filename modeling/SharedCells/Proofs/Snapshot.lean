import Mathlib.Data.List.Basic
import SharedCells.Snapshot

/-!
# Consuming an iterator from both ends

An iterator over items that were collected once is consumed from its front and from its back, in
any order.

* `Draws` records what has been taken; `Draws.take` is one step, `Draws.run` a whole order of them.
* `run_whole`: what was taken from the front, what is still to come, and what was taken from the
  back, in reverse, are the items that were collected, at every moment.
* `run_size`: every step takes an item as long as there is one.
* `Exact` gathers what is known of an iterator at a moment, and `exact_of_whole` gets it from the
  items that were collected.
-/

namespace SharedCells.Snapshot

variable {α : Type}

theorem next_isSome_iff (it : Snapshot α) : it.next.1.isSome ↔ 0 < it.size := by
  unfold next size
  cases it.items <;> simp

theorem nextBack_isSome_iff (it : Snapshot α) : it.nextBack.1.isSome ↔ 0 < it.size := by
  unfold nextBack size
  cases hlast : it.items.getLast? with
  | none => simp [List.getLast?_eq_none_iff.1 hlast]
  | some a => simpa using List.length_pos_of_mem (List.mem_of_getLast? hlast)

/-- An end of an iterator. -/
inductive End where
  | front
  | back
deriving DecidableEq

/-- An iterator with what has been taken from it. -/
structure Draws (α : Type) where
  /-- Taken from the front, the first one first. -/
  front : List α
  /-- Taken from the back, the first one first. -/
  back : List α
  /-- What is still to come. -/
  rest : Snapshot α

namespace Draws

/-- An iterator that nothing has been taken from. -/
def start (it : Snapshot α) : Draws α := ⟨[], [], it⟩

/-- Takes an item from one end, if there is one left. -/
def take (d : Draws α) : End → Draws α
  | .front => ⟨d.front ++ d.rest.next.1.toList, d.back, d.rest.next.2⟩
  | .back => ⟨d.front, d.back ++ d.rest.nextBack.1.toList, d.rest.nextBack.2⟩

def run (d : Draws α) (ends : List End) : Draws α := ends.foldl take d

/-- All items that were collected, in their order. -/
def whole (d : Draws α) : List α := d.front ++ d.rest.items ++ d.back.reverse

theorem take_whole (d : Draws α) (e : End) : (d.take e).whole = d.whole := by
  cases e with
  | front =>
    unfold take whole next
    cases hitems : d.rest.items <;> simp [hitems]
  | back =>
    unfold take whole nextBack
    cases hlast : d.rest.items.getLast? with
    | none => simp
    | some a =>
      have hitems : d.rest.items.dropLast ++ [a] = d.rest.items :=
        List.dropLast_append_getLast? a hlast
      rw [← hitems]
      simp

theorem take_size (d : Draws α) (e : End) : (d.take e).rest.size = d.rest.size - 1 := by
  cases e with
  | front =>
    unfold take next size
    cases hitems : d.rest.items <;> simp [hitems]
  | back =>
    unfold take nextBack size
    cases hlast : d.rest.items.getLast? with
    | none => simp [List.getLast?_eq_none_iff.1 hlast]
    | some a => simp

theorem run_whole (d : Draws α) (ends : List End) : (d.run ends).whole = d.whole := by
  induction ends generalizing d with
  | nil => rfl
  | cons e ends ih => exact (ih (d.take e)).trans (d.take_whole e)

theorem run_size (d : Draws α) (ends : List End) :
    (d.run ends).rest.size = d.rest.size - ends.length := by
  induction ends generalizing d with
  | nil => rfl
  | cons e ends ih =>
    have hrest := ih (d.take e)
    rw [take_size] at hrest
    rw [List.length_cons, Nat.add_comm, ← Nat.sub_sub]
    exact hrest

/-- From an iterator that has come to its end nothing is taken, however often it is asked. -/
theorem run_of_size_eq_zero {d : Draws α} (h : d.rest.size = 0) (ends : List End) :
    d.run ends = d := by
  have hrest : d.rest.items = [] := List.length_eq_zero_iff.1 h
  have htake : ∀ e, d.take e = d := by
    obtain ⟨front, back, items⟩ := d
    dsimp only at hrest
    rintro (_ | _) <;> simp [take, next, nextBack, hrest]
  induction ends with
  | nil => rfl
  | cons e ends ih =>
    rw [run, List.foldl_cons, htake]
    exact ih

/-- What is known of an iterator at a moment, given the items that were collected. -/
structure Exact (items : List α) (d : Draws α) : Prop where
  /-- Taken from the front, still to come, taken from the back. -/
  whole : d.front ++ d.rest.items ++ d.back.reverse = items
  /-- As many items are still to come as were collected and not taken. -/
  size : d.front.length + d.back.length + d.rest.size = items.length
  /-- As many items can still be taken, from whatever ends. -/
  taken : ∀ ends, (d.run ends).front.length + (d.run ends).back.length =
    d.front.length + d.back.length + min ends.length d.rest.size
  next : d.rest.next.1.isSome ↔ 0 < d.rest.size
  nextBack : d.rest.nextBack.1.isSome ↔ 0 < d.rest.size
  /-- At its end an iterator gives nothing, and stays there. -/
  spent : d.rest.size = 0 → d.rest.next.1 = none ∧ d.rest.nextBack.1 = none ∧
    ∀ ends, d.run ends = d

theorem length_of_whole {d : Draws α} {items : List α} (h : d.whole = items) :
    d.front.length + d.back.length + d.rest.size = items.length := by
  rw [← h, whole, List.length_append, List.length_append, List.length_reverse, Snapshot.size]
  omega

theorem exact_of_whole {d : Draws α} {items : List α} (h : d.whole = items) : Exact items d := by
  have hnext := d.rest.next_isSome_iff
  have hnextBack := d.rest.nextBack_isSome_iff
  refine ⟨h, length_of_whole h, fun ends => ?_, hnext, hnextBack, fun hspent => ⟨?_, ?_, ?_⟩⟩
  · have hbefore := length_of_whole h
    have hafter := length_of_whole ((d.run_whole ends).trans h)
    have hsize := d.run_size ends
    omega
  · rw [← Option.not_isSome_iff_eq_none, hnext, hspent]
    exact Nat.lt_irrefl 0
  · rw [← Option.not_isSome_iff_eq_none, hnextBack, hspent]
    exact Nat.lt_irrefl 0
  · exact run_of_size_eq_zero hspent

end Draws

end SharedCells.Snapshot
