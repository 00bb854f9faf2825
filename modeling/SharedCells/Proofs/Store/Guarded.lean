import SharedCells.Descending
import SharedCells.Proofs.Snapshot
import SharedCells.Proofs.Store.Range

/-!
# Scans that never panic

A scan of a sorted store panics on bounds that it refuses: a lower key that exceeds the upper one,
or one key that both bounds leave out. `SortedMap.range` asks first whether the bounds leave any
room. That question, the refusal and the test of a single key are three different comparisons of
two bounds.

* `Bound.empties_of_refused`: the question catches every pair of bounds that a scan refuses.
* `SortedMap.scan?` is a scan that may panic. `SortedMap.scan?_eq_none_iff` says when it does, and
  `SortedMap.range_scans` that the one that is asked for never does.
* `SortedMap.range_lists`: what is listed, however the list is consumed.
-/

namespace SharedCells

variable {K : Type} [LE K] [LT K] [DecidableLE K] [DecidableLT K]

/-! ## Bounds that a scan refuses -/

namespace Bound

/-- The bounds that a scan panics on. -/
def Refused (lower upper : Bound K) : Prop :=
  (∃ low ∈ lower.key?, ∃ high ∈ upper.key?, high < low) ∨
    ∃ k, lower = .excluded k ∧ upper = .excluded k

instance decidableSliceable : (lower upper : Bound K) → Decidable (Sliceable lower upper)
  | .excluded low, .excluded high => inferInstanceAs (Decidable (low < high))
  | .included low, .included high => decidable_of_iff (low ≤ high) (by simp [Sliceable, key?])
  | .included low, .excluded high => decidable_of_iff (low ≤ high) (by simp [Sliceable, key?])
  | .excluded low, .included high => decidable_of_iff (low ≤ high) (by simp [Sliceable, key?])
  | .unbounded, _ => .isTrue (by simp [Sliceable, key?])
  | .included _, .unbounded => .isTrue (by simp [Sliceable, key?])
  | .excluded _, .unbounded => .isTrue (by simp [Sliceable, key?])

variable [Std.IsLinearOrder K] [Std.LawfulOrderLT K]

omit [DecidableLE K] [DecidableLT K] in
/-- Bounds are fit for a scan exactly when it does not refuse them. -/
theorem sliceable_iff {lower upper : Bound K} : Sliceable lower upper ↔ ¬Refused lower upper := by
  cases lower with
  | unbounded => simp [Sliceable, Refused, key?]
  | included low => cases upper <;> simp [Sliceable, Refused, key?, Std.not_lt]
  | excluded low =>
    cases upper with
    | excluded high =>
      -- Only here do equal keys leave no room for a scan.
      have hrefused : Refused (.excluded low) (.excluded high) ↔ high < low ∨ low = high := by
        simp [Refused, key?, eq_comm]
      rw [hrefused, not_or, Std.not_lt]
      exact ⟨fun h => ⟨Std.le_of_lt h, Std.ne_of_lt h⟩, fun h => Std.lt_of_le_of_ne h.1 h.2⟩
    | _ => simp [Sliceable, Refused, key?, Std.not_lt]

theorem empties_of_refused {lower upper : Bound K} (h : Refused lower upper) :
    empties lower upper = true := by
  rw [← Bool.not_eq_false]
  exact fun hempties => sliceable_iff.1 (sliceable_of_empties_eq_false hempties) h

end Bound

/-! ## What a scan lists -/

namespace Store.SortedMap

variable {V : Type}

/-- The entries between two bounds as a scan finds them; it panics on bounds that it refuses. -/
def scan? (m : SortedMap K V) (lower upper : Bound K) : Option (List (K × V)) :=
  if h : lower.Sliceable upper then some (Ascending.slice Prod.fst lower upper m.entries h)
  else none

variable [Std.IsLinearOrder K] [Std.LawfulOrderLT K]

theorem scan?_eq_none_iff (m : SortedMap K V) (lower upper : Bound K) :
    m.scan? lower upper = none ↔ lower.Refused upper := by
  unfold scan?
  split
  · rename_i h
    simpa using Bound.sliceable_iff.1 h
  · rename_i h
    simpa [Bound.sliceable_iff] using h

/-- The entries are those of a scan wherever one is made, and it is made only where it does not
panic. -/
theorem range_scans (m : SortedMap K V) (lower upper : Bound K) :
    some (m.range lower upper) = if lower.empties upper then some [] else m.scan? lower upper := by
  unfold range scan?
  split
  · rfl
  · rename_i h
    rw [dif_pos (Bound.sliceable_of_empties_eq_false (by simpa using h))]

theorem range_ascending (m : SortedMap K V) (lower upper : Bound K) :
    Ascending.Sorted Prod.fst (m.range lower upper) := by
  rw [range_eq_filter]
  exact m.ascending.filter _

theorem mem_range (m : SortedMap K V) (lower upper : Bound K) {e : K × V} :
    e ∈ m.range lower upper ↔
      e ∈ m.entries ∧ (⟨lower, upper⟩ : KeyRange K).contains e.1 = true := by
  rw [range_eq_filter, List.mem_filter]
  rfl

/-- A scan panics on the bounds that it refuses and on no others, and for every pair of bounds no
scan is made that would panic. What is listed are the entries
whose keys lie in the range of the bounds, each once and in ascending order; and so it is in the
end when the list is consumed from both ends, and at every moment before with what is still to
come. -/
theorem range_lists (m : SortedMap K V) (lower upper : Bound K) :
    (m.scan? lower upper = none ↔ lower.Refused upper) ∧
      (lower.empties upper = false → ¬lower.Refused upper) ∧
      some (m.range lower upper) =
        (if lower.empties upper then some [] else m.scan? lower upper) ∧
      (∀ e, e ∈ m.range lower upper ↔
        e ∈ m.entries ∧ (⟨lower, upper⟩ : KeyRange K).contains e.1 = true) ∧
      (m.range lower upper).Nodup ∧ Ascending.Sorted Prod.fst (m.range lower upper) ∧
      ∀ ends : List Snapshot.End,
        let d := (Snapshot.Draws.start ⟨m.range lower upper⟩).run ends
        d.front ++ d.rest.items ++ d.back.reverse = m.range lower upper ∧
          d.rest.items.length = (m.range lower upper).length - ends.length := by
  have hascending := m.range_ascending lower upper
  refine ⟨m.scan?_eq_none_iff lower upper, fun hempties hrefused => ?_, m.range_scans lower upper,
    fun e => m.mem_range lower upper, ?_, hascending, fun ends => ⟨?_, ?_⟩⟩
  · rw [Bound.empties_of_refused hrefused] at hempties
    cases hempties
  · refine hascending.imp ?_
    rintro e e' hlt rfl
    exact Std.lt_irrefl hlt
  · exact (Snapshot.Draws.run_whole _ ends).trans (List.append_nil _)
  · exact Snapshot.Draws.run_size _ ends

/-- Bounds that leave one key out, inverted bounds of keys in descending order, and bounds that
give a list which is then consumed from both ends. -/
theorem range_lists_examples :
    let m : SortedMap Int64 String := ((empty.insert 5 "c").insert (-1) "a").insert 2 "b"
    let n : SortedMap (Descending Int64) Int64 := (empty.insert ⟨-4⟩ 7).insert ⟨9⟩ 0
    let d := (Snapshot.Draws.start ⟨m.range (.included (-1)) .unbounded⟩).run [.back, .front]
    (m.scan? (.excluded 2) (.excluded 2) = none ∧
      some (m.range (.excluded 2) (.excluded 2)) = some []) ∧
    (n.scan? (.included ⟨-4⟩) (.excluded ⟨9⟩) = none ∧
      some (n.range (.included ⟨-4⟩) (.excluded ⟨9⟩)) = some []) ∧
    m.range (.included (-1)) .unbounded = [(-1, "a")] ++ [(2, "b")] ++ [(5, "c")].reverse ∧
      d.rest.items.length = 1 := by
  intro m n d
  have hm := (range_lists m (.excluded 2) (.excluded 2)).2.2.1
  have hn := (range_lists n (.included ⟨-4⟩) (.excluded ⟨9⟩)).2.2.1
  obtain ⟨hwhole, hsize⟩ :=
    (range_lists m (.included (-1)) .unbounded).2.2.2.2.2.2 [.back, .front]
  exact ⟨⟨by decide, hm.trans (if_pos (by decide))⟩, ⟨by decide, hn.trans (if_pos (by decide))⟩,
    hwhole.symm.trans (by decide), hsize.trans (by decide)⟩

end Store.SortedMap

end SharedCells
