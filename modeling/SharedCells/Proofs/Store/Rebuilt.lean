import SharedCells.Proofs.CowMap.Bulk
import SharedCells.Proofs.Store.LawfulSet

/-!
# Stores made from their own lists

The list of a lawful store makes a store with the same content, and the very same store where the
order of the list means something.

* `MapStore.SameContent` and `SetStore.SameContent` compare contents, whatever their order.
* `MapStore.ofList_sameContent` and `SetStore.ofList_sameContent`: any lawful store.
* `SortedMap.ofList_entries`, `ListedMap.ofList_entries`, `SortedSet.ofList_items` and
  `ListedSet.ofList_items`: the stores that promise an order.
-/

namespace SharedCells.Store

variable {K V : Type}

/-! ## Lawful maps -/

section Maps

variable [DecidableEq K]

/-- Pairs with distinct keys that are put one after another all stay. -/
theorem Plain.putAll_eq_some_iff {m : Plain K V} {es : List (K × V)}
    (h : (es.map Prod.fst).Nodup) {k : K} {v : V} :
    m.putAll es k = some v ↔ (k, v) ∈ es ∨ k ∉ es.map Prod.fst ∧ m k = some v := by
  induction es generalizing m with
  | nil => simp [putAll]
  | cons e es ih =>
    obtain ⟨k', v'⟩ := e
    rw [List.map_cons, List.nodup_cons] at h
    have hlater : m.putAll ((k', v') :: es) = (m.put k' v').putAll es := rfl
    rw [hlater, ih h.2, put, List.mem_cons, List.map_cons, List.mem_cons]
    by_cases hk : k = k'
    · subst hk
      have hno : (k, v) ∉ es := fun hmem => h.1 (List.mem_map.2 ⟨(k, v), hmem, rfl⟩)
      simp [h.1, hno, eq_comm]
    · simp [hk]

theorem Plain.Lists.putAll_empty {before : K → K → Prop} {m : Plain K V} {es : List (K × V)}
    (h : Plain.Lists before m es) : Plain.putAll Plain.empty es = m := by
  funext k
  refine Option.ext fun v => ?_
  rw [Plain.putAll_eq_some_iff h.distinct, h.holds k v]
  simp [Plain.empty]

variable {M : Type} [MapStore M K V]

omit [DecidableEq K] in
/-- Two stores have the same value under every key, and list the same entries in some order. -/
def MapStore.SameContent (m m' : M) : Prop :=
  MapStore.lookup m = MapStore.lookup m' ∧ (MapStore.entries m).Perm (MapStore.entries m')

variable {before : K → K → Prop} [laws : LawfulMapStore M before]

include laws

theorem MapStore.ofList_sameContent (m : M) :
    SameContent m (MapStore.ofList (MapStore.entries m)) := by
  have hlookup : MapStore.lookup (MapStore.ofList (MapStore.entries m) : M) =
      MapStore.lookup m := by
    rw [MapStore.ofList, CowMap.lookup_insertAll, LawfulMapStore.lookup_empty]
    exact (LawfulMapStore.lists m).putAll_empty
  have hlists := LawfulMapStore.lists (MapStore.ofList (MapStore.entries m) : M)
  rw [hlookup] at hlists
  exact ⟨hlookup.symm, (LawfulMapStore.lists m).perm hlists⟩

end Maps

/-! ## Lawful sets -/

section Sets

variable {S : Type} [SetStore S K]

/-- Two stores have the same items, and list them in some order. -/
def SetStore.SameContent (s s' : S) : Prop :=
  (∀ a, SetStore.contains s a = SetStore.contains s' a) ∧
    (SetStore.items s).Perm (SetStore.items s')

variable {alike : List K → List K → Prop} [laws : LawfulSetStore S alike]

include laws

theorem SetStore.ofList_sameContent (s : S) :
    SameContent s (SetStore.ofList (SetStore.items s)) := by
  have hmem : ∀ a, a ∈ SetStore.items s ↔
      a ∈ SetStore.items (SetStore.ofList (SetStore.items s) : S) := by
    intro a
    have heach : a ∈ SetStore.items (each SetStore.insert (SetStore.empty : S)
        (SetStore.items s)) ↔ a ∈ SetStore.items s ∨ a ∈ SetStore.items (SetStore.empty : S) :=
      mem_each_insert
    rw [LawfulSetStore.items_empty] at heach
    exact (heach.trans (or_iff_left List.not_mem_nil)).symm
  refine ⟨fun a => Bool.eq_iff_iff.2 ?_, ?_⟩
  · rw [LawfulSetStore.contains_iff, LawfulSetStore.contains_iff, hmem a]
  · exact (List.perm_ext_iff_of_nodup (LawfulSetStore.nodup _) (LawfulSetStore.nodup _)).2 hmem

end Sets

/-! ## Sorted stores -/

section Sorted

variable [LT K] [LE K] [DecidableLT K] [Std.IsLinearOrder K] [Std.LawfulOrderLT K]

omit [DecidableLT K] in
theorem Ascending.eq_of_perm {α : Type} {key : α → K} {as bs : List α} (has : Sorted key as)
    (hbs : Sorted key bs) (h : as.Perm bs) : as = bs :=
  h.eq_of_pairwise (fun _ _ _ _ hab hba => absurd (Std.lt_trans hab hba) Std.lt_irrefl) has hbs

theorem SortedMap.ofList_entries [DecidableLE K] [DecidableEq K] (m : SortedMap K V) :
    (MapStore.ofList m.entries : SortedMap K V) = m := by
  have heq := Ascending.eq_of_perm (SortedMap.ascending _) m.ascending
    (MapStore.ofList_sameContent m).2.symm
  exact (SortedMap.mk.injEq ..).mpr heq

theorem SortedSet.ofList_items (s : SortedSet K) : (SetStore.ofList s.items : SortedSet K) = s := by
  have heq := Ascending.eq_of_perm (SortedSet.ascending _) s.ascending
    (SetStore.ofList_sameContent s).2.symm
  exact (SortedSet.mk.injEq ..).mpr heq

end Sorted

/-! ## Stores in order of arrival -/

section Listed

variable [DecidableEq K]

theorem Distinct.insert_of_not_mem {α : Type} {key : α → K} {a : α} {as : List α}
    (h : key a ∉ as.map key) : insert key a as = as ++ [a] := by
  induction as with
  | nil => rfl
  | cons b as ih =>
    rw [List.map_cons, List.mem_cons, not_or] at h
    rw [insert, if_neg (Ne.symm h.1), ih h.2]
    rfl

/-- Members with new keys go to the end, one after another. -/
theorem Distinct.foldl_insert {α : Type} {key : α → K} {as bs : List α}
    (h : Keyed key (as ++ bs)) :
    bs.foldl (fun as b => insert key b as) as = as ++ bs := by
  induction bs generalizing as with
  | nil => exact (List.append_nil as).symm
  | cons b bs ih =>
    have hnew : key b ∉ as.map key := by
      rw [Keyed, List.map_append, List.map_cons] at h
      exact fun hmem => (List.nodup_append.1 h).2.2 _ hmem _ List.mem_cons_self rfl
    rw [List.foldl_cons, insert_of_not_mem hnew, ih (by simpa using h), List.append_assoc]
    rfl

theorem Distinct.foldl_insert_nil {α : Type} {key : α → K} {as : List α} (h : Keyed key as) :
    as.foldl (fun as a => insert key a as) [] = as :=
  foldl_insert h

theorem ListedMap.entries_foldl (m : ListedMap K V) (es : List (K × V)) :
    (es.foldl (fun m (k, v) => (MapStore.insert m k v).1) m).entries =
      es.foldl (fun es e => Distinct.insert Prod.fst e es) m.entries := by
  induction es generalizing m with
  | nil => rfl
  | cons e es ih => exact ih _

theorem ListedMap.ofList_entries (m : ListedMap K V) :
    (MapStore.ofList m.entries : ListedMap K V) = m := by
  have heq : (MapStore.ofList m.entries : ListedMap K V).entries = m.entries :=
    (entries_foldl _ _).trans (Distinct.foldl_insert_nil m.distinct)
  exact (ListedMap.mk.injEq ..).mpr heq

theorem ListedSet.items_foldl (s : ListedSet K) (as : List K) :
    (as.foldl (fun s a => (SetStore.insert s a).1) s).items =
      as.foldl (fun as a => Distinct.insert id a as) s.items := by
  induction as generalizing s with
  | nil => rfl
  | cons a as ih => exact ih _

theorem ListedSet.ofList_items (s : ListedSet K) : (SetStore.ofList s.items : ListedSet K) = s := by
  have heq : (SetStore.ofList s.items : ListedSet K).items = s.items :=
    (items_foldl _ _).trans (Distinct.foldl_insert_nil s.distinct)
  exact (ListedSet.mk.injEq ..).mpr heq

end Listed

end SharedCells.Store
