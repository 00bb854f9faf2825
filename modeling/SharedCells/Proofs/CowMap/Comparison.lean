import SharedCells.Proofs.CowMap.Equality
import SharedCells.Proofs.CowMap.SubMap

/-!
# Comparison of parts of sorted maps

Two parts of sorted maps are compared by a walk through their entries in step, which ends at the
first difference or where one of them ends. As both list the entries of their range, each once and
in ascending order, this decides whether the parts have equal values, or none, under every key.

* `compareNext` is one round of the walk, `compareWithin` the answer of one that ends within so many
  rounds; `compareWithin_eq` bounds the rounds and finds the answer to be that of `sameEntries`.
* `sameEntries_iff`: what the walk decides about two plain maps, from the lists that show them.
* `parts_compared` is the result. Equality of values may be any relation.
-/

namespace SharedCells.SubMap

open Store

/-! ## The walk -/

section Walk

variable {K V : Type} [BEq K] [BEq V]

/-- One round of a walk through two iterators in step: the answer, or what is left of both. -/
def compareNext (left right : Snapshot (K × V)) : Bool ⊕ (Snapshot (K × V) × Snapshot (K × V)) :=
  match left.next, right.next with
  | (none, _), (none, _) => .inl true
  | (some (k, v), left), (some (k', v'), right) =>
    if k == k' && v == v' then .inr (left, right) else .inl false
  | _, _ => .inl false

/-- The answer of a walk through two iterators in step, if it ends within so many rounds. -/
def compareWithin : (rounds : Nat) → Snapshot (K × V) → Snapshot (K × V) → Option Bool
  | 0, _, _ => none
  | rounds + 1, left, right =>
    match compareNext left right with
    | .inl answer => some answer
    | .inr (left, right) => compareWithin rounds left right

/-- A walk takes at most one round more than the shorter iterator has items. -/
theorem compareWithin_eq {left right : Snapshot (K × V)} {rounds : Nat}
    (h : min left.size right.size < rounds) :
    compareWithin rounds left right = some (sameEntries left.items right.items) := by
  induction rounds generalizing left right with
  | zero => exact absurd h (Nat.not_lt_zero _)
  | succ rounds ih =>
    obtain ⟨es⟩ := left
    obtain ⟨es'⟩ := right
    cases es with
    | nil => cases es' <;> rfl
    | cons e es =>
      cases es' with
      | nil => rfl
      | cons e' es' =>
        have hnext : compareNext ⟨e :: es⟩ ⟨e' :: es'⟩ =
            if e.1 == e'.1 && e.2 == e'.2 then .inr (⟨es⟩, ⟨es'⟩) else .inl false := rfl
        have hrest : min es.length es'.length < rounds := by
          simp only [Snapshot.size, List.length_cons] at h
          omega
        rw [compareWithin, hnext, sameEntries]
        cases e.1 == e'.1 && e.2 == e'.2 with
        | false => rfl
        | true => exact ih hrest

theorem sameEntries_eq_beq (es es' : List (K × V)) : sameEntries es es' = (es == es') := by
  fun_induction sameEntries es es' with
  | case1 => rfl
  | case2 k v es k' v' es' ih =>
    rw [ih]
    rfl
  | case3 es es' hnil hcons =>
    cases es with
    | nil =>
      cases es' with
      | nil => exact absurd rfl (hnil rfl)
      | cons e' es' => rfl
    | cons e es =>
      cases es' with
      | nil => rfl
      | cons e' es' => exact absurd rfl (hcons _ _ _ _ _ _ rfl)

end Walk

/-! ## What is decided -/

theorem rel_iff {V : Type} {R : V → V → Prop} {a b : Option V} :
    Option.Rel R a b ↔
      a.isSome = b.isSome ∧ ∀ v v', a = some v → b = some v' → R v v' := by
  constructor
  · rintro (h | _)
    · exact ⟨rfl, fun v v' hv hv' => by cases hv; cases hv'; exact h⟩
    · exact ⟨rfl, fun v v' hv => nomatch hv⟩
  · rintro ⟨hsome, hrel⟩
    cases a with
    | none =>
      cases b with
      | none => exact .none
      | some v' => cases hsome
    | some v =>
      cases b with
      | none => cases hsome
      | some v' => exact .some (hrel v v' rfl rfl)

variable {K V : Type} [LE K] [LT K] [Std.IsLinearOrder K] [Std.LawfulOrderLT K] [BEq K]
  [LawfulBEq K] [BEq V]

/-- Two plain maps have equal values, or none, under every key. -/
def Alike (m m' : Plain K V) : Prop := ∀ k, Option.Rel (fun v v' => (v == v') = true) (m k) (m' k)

theorem sameEntries_iff {m m' : Plain K V} {es es' : List (K × V)} (h : m.Lists (· < ·) es)
    (h' : m'.Lists (· < ·) es') : sameEntries es es' = true ↔ Alike m m' := by
  rw [sameEntries_eq_beq, h.beq_iff h', Alike]
  simp only [rel_iff, forall_and]

variable [DecidableLE K] [DecidableLT K] (r r' : KeyRange K) (m m' : CowMap (SortedMap K V))

theorem equal_iff : equal r m r' m' = true ↔ Alike (get? r m) (get? r' m') :=
  sameEntries_iff (lists_entries r m) (lists_entries r' m')

theorem equalsStore_iff (w : SortedMap K V) :
    equalsStore r m w = true ↔ Alike (get? r m) w.lookup :=
  sameEntries_iff (lists_entries r m) w.lists

/-- Two parts of sorted maps, or of one, are equal exactly if they have equal values, or none, under
every key, and so are a part and a store. The walk that finds this out ends, whatever the entries
are. The answer is the same for all parts that have the same values. -/
theorem parts_compared :
    (equal r m r' m' = true ↔
      ∀ k, Option.Rel (fun v v' => (v == v') = true) (get? r m k) (get? r' m' k)) ∧
    (∀ w : SortedMap K V, equalsStore r m w = true ↔
      ∀ k, Option.Rel (fun v v' => (v == v') = true) (get? r m k) (w.lookup k)) ∧
    (∀ rounds, min (size r m) (size r' m') < rounds →
      compareWithin rounds (iter r m) (iter r' m') = some (equal r m r' m')) ∧
    (∀ (w : SortedMap K V) rounds, min (size r m) w.entries.length < rounds →
      compareWithin rounds (iter r m) ⟨w.entries⟩ = some (equalsStore r m w)) ∧
    ∀ (r₁ r₁' : KeyRange K) (m₁ m₁' : CowMap (SortedMap K V)),
      (∀ k, get? r m k = get? r₁ m₁ k) →
        ((∀ k, get? r' m' k = get? r₁' m₁' k) → equal r m r' m' = equal r₁ m₁ r₁' m₁') ∧
          ∀ w : SortedMap K V, equalsStore r m w = equalsStore r₁ m₁ w := by
  have hwalk (w : SortedMap K V) (rounds : Nat) (h : min (size r m) w.entries.length < rounds) :
      compareWithin rounds (iter r m) ⟨w.entries⟩ = some (equalsStore r m w) := compareWithin_eq h
  refine ⟨equal_iff r r' m m', equalsStore_iff r m, fun rounds h => compareWithin_eq h, hwalk,
    fun r₁ r₁' m₁ m₁' hsame => ?_⟩
  have hleft : get? r m = get? r₁ m₁ := funext hsame
  refine ⟨fun hsame' => ?_, fun w => ?_⟩
  · have hright : get? r' m' = get? r₁' m₁' := funext hsame'
    rw [Bool.eq_iff_iff, equal_iff, equal_iff, hleft, hright]
  · rw [Bool.eq_iff_iff, equalsStore_iff, equalsStore_iff, hleft]

omit [LE K] [LT K] [Std.IsLinearOrder K] [Std.LawfulOrderLT K] [BEq K] [LawfulBEq K] [BEq V]
  [DecidableLE K] [DecidableLT K] in
/-- Ranges of two shapes around equal entries, a range without keys, and a value that is not equal
to itself. -/
theorem parts_compared_examples :
    let _ : BEq (Option Nat) := ⟨fun a b => a.isSome && decide (a = b)⟩
    let m : CowMap (SortedMap Nat (Option Nat)) :=
      ⟨⟨0, MapStore.ofList [(1, some 7), (2, none)]⟩, .plain, 0⟩
    let m' : CowMap (SortedMap Nat (Option Nat)) :=
      ⟨⟨1, MapStore.ofList [(1, some 7), (3, some 8)]⟩, .plain, 0⟩
    let w : SortedMap Nat (Option Nat) := MapStore.ofList [(1, some 7)]
    equal (headOf 2) m ⟨.included 1, .included 1⟩ m' = true ∧
      (∀ k, Option.Rel (fun v v' => (v == v') = true) (get? (headOf 2) m k)
        (get? ⟨.included 1, .included 1⟩ m' k)) ∧
      compareWithin 2 (iter (headOf 2) m) (iter ⟨.included 1, .included 1⟩ m') = some true ∧
      equalsStore (headOf 2) m w = true ∧ equalsStore (headOf 3) m w = false ∧
      equal (tailOf 2) m (tailOf 2) m = false ∧
      equal ⟨.excluded 2, .excluded 2⟩ m (tailOf 4) m' = true := by
  intro _ m m' w
  have hparts := parts_compared (headOf 2) ⟨.included 1, .included 1⟩ m m'
  have hequal : equal (headOf 2) m ⟨.included 1, .included 1⟩ m' = true := by decide
  exact ⟨hequal, hparts.1.1 hequal, (hparts.2.2.1 2 (by decide)).trans (congrArg some hequal),
    by decide, by decide, by decide, by decide⟩

end SharedCells.SubMap
