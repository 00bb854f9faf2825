import SharedCells.CowMap.Basic
import SharedCells.Proofs.Store.Lawful

/-!
# Bulk changes of a store

The mutations of the writes that change many entries at once, over a lawful store.

* `retain_mutation` and `retain_mutation_error`: dropping what a predicate does not keep.
* `lookup_eraseAll` and `eraseAll_flag`: erasing several keys.
* `lookup_insertAll`: putting several pairs.
-/

namespace SharedCells.CowMap

open Store

theorem asks_keeping {α : Type} (keep : α → Bool) (as : List α) :
    Asks (keeping keep) () as (.ok (as.filter keep, ())) := by
  induction as with
  | nil => exact .done ()
  | cons a as ih =>
    cases h : keep a
    · rw [List.filter_cons_of_neg (by simp [h])]
      exact .drops (by rw [keeping, h]) ih
    · rw [List.filter_cons_of_pos h]
      exact .keeps (by rw [keeping, h]) ih

variable {M K V : Type} [MapStore M K V]

/-- Erasing several keys, and whether any of them was there. -/
def eraseAll (p : Bool × M) (ks : List K) : Bool × M :=
  ks.foldl (fun p k =>
    (p.1 || (MapStore.erase p.2 k).2.isSome, (MapStore.erase p.2 k).1)) p

variable [DecidableEq K] {before : K → K → Prop} [laws : LawfulMapStore M before]

include laws

/-- Dropping what a predicate does not keep leaves what it keeps, and comparing the sizes tells
whether anything was lost. -/
theorem retain_mutation {σ : Type} {ask : σ → K × V → Except Panic (Bool × σ)} {t u : σ} {w : M}
    {kept : List (K × V)} (h : Asks ask t (MapStore.entries w) (.ok (kept, u))) :
    ∃ b w', (MapStore.retain ask t w).map (fun (kept, t) =>
        ((MapStore.size kept != MapStore.size w, t), kept)) = .ok ((b, u), w') ∧
      Plain.Holds (MapStore.lookup w') kept ∧
      (b = true ↔ Plain.Loses (MapStore.lookup w) (MapStore.lookup w')) := by
  obtain ⟨w', hw', hholds⟩ := LawfulMapStore.retain_ok h
  have hlists := LawfulMapStore.lists w
  have hsub := sift_sublist h.eq_sift
  have hkept := (hlists.sublist hsub hholds).perm (LawfulMapStore.lists w')
  refine ⟨_, w', by rw [hw']; rfl, hholds, ?_⟩
  rw [hlists.loses_iff_length hsub hholds, hkept.length_eq, bne_iff_ne,
    LawfulMapStore.size_eq, LawfulMapStore.size_eq]

theorem retain_mutation_error {σ : Type} {ask : σ → K × V → Except Panic (Bool × σ)} {t : σ}
    {w : M} {p : Panic} (h : Asks ask t (MapStore.entries w) (.error p)) :
    (MapStore.retain ask t w).map (fun (kept, t) =>
      ((MapStore.size kept != MapStore.size w, t), kept)) = .error p := by
  rw [LawfulMapStore.retain_error h]
  rfl

theorem lookup_eraseAll (p : Bool × M) (ks : List K) (k : K) :
    MapStore.lookup (eraseAll p ks).2 k = if k ∈ ks then none else MapStore.lookup p.2 k := by
  induction ks generalizing p with
  | nil => simp [eraseAll]
  | cons k' ks ih =>
    rw [eraseAll, List.foldl_cons, ← eraseAll, ih, LawfulMapStore.lookup_erase, Plain.remove]
    by_cases hk : k ∈ ks
    · simp [hk]
    · by_cases hkk : k = k' <;> simp [hk, hkk]

theorem lookup_eraseAll_eq_some_iff {p : Bool × M} {ks : List K} {k : K} {v : V} :
    MapStore.lookup (eraseAll p ks).2 k = some v ↔ MapStore.lookup p.2 k = some v ∧ k ∉ ks := by
  rw [lookup_eraseAll]
  by_cases hk : k ∈ ks <;> simp [hk]

theorem eraseAll_flag (p : Bool × M) (ks : List K) :
    (eraseAll p ks).1 = true ↔
      p.1 = true ∨ Plain.Loses (MapStore.lookup p.2) (MapStore.lookup (eraseAll p ks).2) := by
  induction ks generalizing p with
  | nil => simp [eraseAll, Plain.not_loses_self]
  | cons k ks ih =>
    have hgone : MapStore.lookup (eraseAll p (k :: ks)).2 k = none := by
      rw [lookup_eraseAll, if_pos List.mem_cons_self]
    rw [Plain.loses_iff_remove hgone, ← LawfulMapStore.lookup_erase, ← or_assoc,
      ← LawfulMapStore.erase_previous, ← Bool.or_eq_true]
    exact ih _

theorem lookup_insertAll (w : M) (es : List (K × V)) :
    MapStore.lookup (es.foldl (fun w (k, v) => (MapStore.insert w k v).1) w) =
      Plain.putAll (MapStore.lookup w) es := by
  induction es generalizing w with
  | nil => rfl
  | cons e es ih =>
    rw [List.foldl_cons, ih, LawfulMapStore.lookup_insert]
    rfl

end SharedCells.CowMap
