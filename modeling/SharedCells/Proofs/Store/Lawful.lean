import SharedCells.Proofs.Store.Plain
import SharedCells.Store.Sorted
import SharedCells.Store.Unordered

/-!
# Lawful stores

A store is lawful when each of its operations does to the value under each key what it does to a
plain map, and when its list of entries shows that map. `LawfulMapStore` states this once for
every operation, together with the order that the store promises for its list.

* `SortedMap` promises ascending keys, `ListedMap` and `UnorderedMap` promise no order between
  keys: the instances at the end.
* `Ascending.mem_insert_iff`, `Distinct.mem_insert_iff` and their like say what the operations do
  to the members of the lists that the stores are made of.
-/

namespace SharedCells.Store

/-! ## Members of ascending lists -/

namespace Ascending

variable {K α : Type} [LT K] {key : α → K}

theorem Sorted.of_cons {b : α} {bs : List α} (h : Sorted key (b :: bs)) :
    (∀ x ∈ bs, key b < key x) ∧ Sorted key bs := List.pairwise_cons.1 h

variable [LE K] [Std.LawfulOrderLT K]

theorem ne_of_key_lt {a b : K} (h : a < b) : b ≠ a := by
  intro heq
  subst heq
  exact Std.lt_irrefl h

theorem Sorted.nodup {as : List α} (h : Sorted key as) : (as.map key).Nodup :=
  List.pairwise_map.2 (List.Pairwise.imp (fun hab => (ne_of_key_lt hab).symm) h)

variable [Std.IsLinearOrder K] [DecidableLT K]

theorem find?_eq_some_iff {as : List α} (h : Sorted key as) {k : K} {a : α} :
    find? key k as = some a ↔ a ∈ as ∧ key a = k := by
  fun_induction find? key k as with
  | case1 => simp
  | case2 b bs hb ih =>
    rw [ih h.of_cons.2]
    constructor
    · rintro ⟨ha, hk⟩
      exact ⟨List.mem_cons_of_mem _ ha, hk⟩
    · rintro ⟨ha, rfl⟩
      rcases List.mem_cons.1 ha with rfl | ha
      · exact absurd hb Std.lt_irrefl
      · exact ⟨ha, rfl⟩
  | case3 b bs _ hk =>
    refine iff_of_false (by simp) ?_
    rintro ⟨ha, rfl⟩
    rcases List.mem_cons.1 ha with rfl | ha
    · exact absurd hk Std.lt_irrefl
    · exact absurd (Std.lt_trans hk (h.of_cons.1 a ha)) Std.lt_irrefl
  | case4 b bs hb hk =>
    have hkey : key b = k := Std.le_antisymm (Std.not_lt.1 hk) (Std.not_lt.1 hb)
    constructor
    · intro hsome
      cases hsome
      exact ⟨List.mem_cons_self, hkey⟩
    · rintro ⟨ha, rfl⟩
      rcases List.mem_cons.1 ha with rfl | ha
      · rfl
      · exact absurd (h.of_cons.1 a ha) (hkey ▸ Std.lt_irrefl)

theorem mem_insert_iff {as : List α} (h : Sorted key as) {a x : α} :
    x ∈ insert key a as ↔ x = a ∨ x ∈ as ∧ key x ≠ key a := by
  fun_induction insert key a as with
  | case1 => simp
  | case2 b bs hb ih =>
    have hne : key b ≠ key a := (ne_of_key_lt hb).symm
    rw [List.mem_cons, ih h.of_cons.2, List.mem_cons]
    by_cases hx : x = b
    · subst hx
      simp [hne]
    · simp [hx]
  | case3 b bs _ ha =>
    have hne : ∀ x ∈ b :: bs, key x ≠ key a := by
      intro x hx
      rcases List.mem_cons.1 hx with rfl | hx
      · exact ne_of_key_lt ha
      · exact ne_of_key_lt (Std.lt_trans ha (h.of_cons.1 x hx))
    rw [List.mem_cons]
    exact or_congr_right ⟨fun hx => ⟨hx, hne x hx⟩, And.left⟩
  | case4 b bs hb ha =>
    have hkey : key b = key a := Std.le_antisymm (Std.not_lt.1 ha) (Std.not_lt.1 hb)
    rw [List.mem_cons, List.mem_cons]
    refine or_congr_right ⟨fun hx => ⟨Or.inr hx, ?_⟩, ?_⟩
    · exact hkey ▸ ne_of_key_lt (h.of_cons.1 x hx)
    · rintro ⟨rfl | hx, hne⟩
      · exact absurd hkey hne
      · exact hx

theorem mem_erase_iff {as : List α} (h : Sorted key as) {k : K} {x : α} :
    x ∈ erase key k as ↔ x ∈ as ∧ key x ≠ k := by
  fun_induction erase key k as with
  | case1 => simp
  | case2 b bs hb ih =>
    have hne : key b ≠ k := (ne_of_key_lt hb).symm
    rw [List.mem_cons, ih h.of_cons.2, List.mem_cons]
    by_cases hx : x = b
    · subst hx
      simp [hne]
    · simp [hx]
  | case3 b bs _ hk =>
    refine ⟨fun hx => ⟨hx, ?_⟩, And.left⟩
    rcases List.mem_cons.1 hx with rfl | hx
    · exact ne_of_key_lt hk
    · exact ne_of_key_lt (Std.lt_trans hk (h.of_cons.1 x hx))
  | case4 b bs hb hk =>
    have hkey : key b = k := Std.le_antisymm (Std.not_lt.1 hk) (Std.not_lt.1 hb)
    rw [List.mem_cons]
    refine ⟨fun hx => ⟨Or.inr hx, hkey ▸ ne_of_key_lt (h.of_cons.1 x hx)⟩, ?_⟩
    rintro ⟨rfl | hx, hne⟩
    · exact absurd hkey hne
    · exact hx

end Ascending

/-! ## Members of lists with distinct keys -/

namespace Distinct

variable {K α : Type} {key : α → K}

theorem Keyed.of_cons {b : α} {bs : List α} (h : Keyed key (b :: bs)) :
    (∀ x ∈ bs, key x ≠ key b) ∧ Keyed key bs := by
  rw [Keyed, List.map_cons, List.nodup_cons] at h
  exact ⟨fun x hx hxb => h.1 (hxb ▸ List.mem_map_of_mem hx), h.2⟩

variable [DecidableEq K]

theorem find?_eq_some_iff {as : List α} (h : Keyed key as) {k : K} {a : α} :
    find? key k as = some a ↔ a ∈ as ∧ key a = k := by
  unfold find?
  induction as with
  | nil => simp
  | cons b bs ih =>
    rw [List.find?_cons, List.mem_cons]
    by_cases hb : key b = k
    · simp only [hb, decide_true, Option.some.injEq]
      constructor
      · rintro rfl
        exact ⟨Or.inl rfl, hb⟩
      · rintro ⟨rfl | ha, hk⟩
        · rfl
        · exact absurd (hk.trans hb.symm) (h.of_cons.1 a ha)
    · simp only [hb, decide_false]
      rw [ih h.of_cons.2]
      refine ⟨fun ha => ⟨Or.inr ha.1, ha.2⟩, ?_⟩
      rintro ⟨rfl | ha, hk⟩
      · exact absurd hk hb
      · exact ⟨ha, hk⟩

theorem mem_insert_iff {as : List α} (h : Keyed key as) {a x : α} :
    x ∈ insert key a as ↔ x = a ∨ x ∈ as ∧ key x ≠ key a := by
  fun_induction insert key a as with
  | case1 => simp
  | case2 b bs hb =>
    rw [List.mem_cons, List.mem_cons]
    refine or_congr_right ⟨fun hx => ⟨Or.inr hx, hb ▸ h.of_cons.1 x hx⟩, ?_⟩
    rintro ⟨rfl | hx, hne⟩
    · exact absurd hb hne
    · exact hx
  | case3 b bs hb ih =>
    rw [List.mem_cons, ih h.of_cons.2, List.mem_cons]
    by_cases hx : x = b
    · subst hx
      simp [hb]
    · simp [hx]

theorem mem_erase_iff {as : List α} {k : K} {x : α} :
    x ∈ erase key k as ↔ x ∈ as ∧ key x ≠ k := by
  simp [erase]

end Distinct

/-! ## The laws -/

/-- A store that treats the value under each key as a plain map does, and whose list of entries
shows that map in the promised order. -/
class LawfulMapStore (M : Type) {K V : outParam Type} [MapStore M K V] [DecidableEq K]
    (before : outParam (K → K → Prop)) : Prop where
  /-- The list of entries shows what is looked up. -/
  lists (m : M) : Plain.Lists before (MapStore.lookup m) (MapStore.entries m)
  /-- The size counts the entries. -/
  size_eq (m : M) : MapStore.size m = (MapStore.entries m).length
  /-- The empty store has nothing under any key. -/
  lookup_empty : MapStore.lookup (MapStore.empty : M) = Plain.empty
  /-- An insertion puts the value under the key. -/
  lookup_insert (m : M) (k : K) (v : V) :
    MapStore.lookup (MapStore.insert m k v).1 = Plain.put (MapStore.lookup m) k v
  /-- An insertion gives the value that it replaces. -/
  insert_previous (m : M) (k : K) (v : V) : (MapStore.insert m k v).2 = MapStore.lookup m k
  /-- An erasure takes the entry of the key away. -/
  lookup_erase (m : M) (k : K) :
    MapStore.lookup (MapStore.erase m k).1 = Plain.remove (MapStore.lookup m) k
  /-- An erasure gives the value that it takes away. -/
  erase_previous (m : M) (k : K) : (MapStore.erase m k).2 = MapStore.lookup m k
  /-- A cleared store has nothing under any key. -/
  lookup_clear (m : M) : MapStore.lookup (MapStore.clear m) = Plain.empty
  /-- A predicate is asked about every entry, and the store has what it keeps. -/
  retain_ok {σ : Type} {ask : σ → K × V → Except Panic (Bool × σ)} {t u : σ} {m : M}
    {kept : List (K × V)} (h : Asks ask t (MapStore.entries m) (.ok (kept, u))) :
    ∃ m', MapStore.retain ask t m = .ok (m', u) ∧ Plain.Holds (MapStore.lookup m') kept
  /-- A predicate that panics leaves nothing. -/
  retain_error {σ : Type} {ask : σ → K × V → Except Panic (Bool × σ)} {t : σ} {m : M} {p : Panic}
    (h : Asks ask t (MapStore.entries m) (.error p)) : MapStore.retain ask t m = .error p

variable {K V : Type}

/-! ## Stores that sift their lists -/

section Sifts

variable {M σ α : Type} {entries : M → List α} {ask : σ → α → Except Panic (Bool × σ)} {t u : σ}
  {as : List α} {r : Except Panic (M × σ)}

/-- A store is made of what is left of a list, and a panic leaves no store. -/
def Sifts (entries : M → List α) (r : Except Panic (M × σ)) (out : Except Panic (List α × σ)) :
    Prop :=
  r.map (fun p => (entries p.1, p.2)) = out

theorem Sifts.ok (hr : Sifts entries r (sift ask t as)) {kept : List α}
    (h : Asks ask t as (.ok (kept, u))) : ∃ m, r = .ok (m, u) ∧ entries m = kept := by
  rw [h.eq_sift] at hr
  cases r with
  | error p => cases hr
  | ok out =>
    obtain ⟨m, u'⟩ := out
    cases hr
    exact ⟨m, rfl, rfl⟩

theorem Sifts.error (hr : Sifts entries r (sift ask t as)) {p : Panic}
    (h : Asks ask t as (.error p)) : r = .error p := by
  rw [h.eq_sift] at hr
  cases r with
  | error p' =>
    cases hr
    rfl
  | ok out => cases hr

end Sifts

/-! ## The stores -/

namespace SortedMap

variable [LT K] [DecidableLT K] [LE K] [Std.IsLinearOrder K] [Std.LawfulOrderLT K]

theorem holds (m : SortedMap K V) : Plain.Holds m.lookup m.entries := by
  intro k v
  simp only [lookup, Option.map_eq_some_iff, Ascending.find?_eq_some_iff m.ascending]
  constructor
  · rintro ⟨⟨k', v'⟩, ⟨he, rfl⟩, rfl⟩
    exact he
  · intro he
    exact ⟨(k, v), ⟨he, rfl⟩, rfl⟩

theorem lists (m : SortedMap K V) : Plain.Lists (· < ·) m.lookup m.entries :=
  ⟨m.ascending, m.ascending.nodup, m.holds⟩

variable [DecidableEq K]

theorem lookup_insert [DecidableLE K] (m : SortedMap K V) (k : K) (v : V) :
    (m.insert k v).lookup = Plain.put m.lookup k v :=
  Plain.eq_put m.holds (m.insert k v).holds fun _ => Ascending.mem_insert_iff m.ascending

theorem lookup_erase (m : SortedMap K V) (k : K) :
    (m.erase k).lookup = Plain.remove m.lookup k :=
  Plain.eq_remove m.holds (m.erase k).holds fun _ => Ascending.mem_erase_iff m.ascending

omit [DecidableLT K] [LE K] [Std.IsLinearOrder K] [Std.LawfulOrderLT K] [DecidableEq K] in
theorem sifts_retain {σ : Type} (ask : σ → K × V → Except Panic (Bool × σ)) (t : σ)
    (m : SortedMap K V) :
    Sifts entries (SortedMap.retain ask t m) (sift ask t m.entries) := by
  unfold SortedMap.retain
  split
  · rename_i p hsift
    exact hsift.symm
  · rename_i kept u hsift
    exact hsift.symm

instance [DecidableLE K] : LawfulMapStore (SortedMap K V) (· < · : K → K → Prop) where
  lists := lists
  size_eq _ := rfl
  lookup_empty := rfl
  lookup_insert := lookup_insert
  insert_previous _ _ _ := rfl
  lookup_erase := lookup_erase
  erase_previous _ _ := rfl
  lookup_clear _ := rfl
  retain_ok {_ ask t _ m _} h := by
    obtain ⟨m', hm', rfl⟩ := (m.sifts_retain ask t).ok h
    exact ⟨m', hm', m'.holds⟩
  retain_error {_ ask t m _} h := (m.sifts_retain ask t).error h

end SortedMap

namespace ListedMap

variable [DecidableEq K]

theorem holds (m : ListedMap K V) : Plain.Holds m.lookup m.entries := by
  intro k v
  simp only [lookup, Option.map_eq_some_iff, Distinct.find?_eq_some_iff m.distinct]
  constructor
  · rintro ⟨⟨k', v'⟩, ⟨he, rfl⟩, rfl⟩
    exact he
  · intro he
    exact ⟨(k, v), ⟨he, rfl⟩, rfl⟩

theorem lists (m : ListedMap K V) : Plain.Lists (fun _ _ => True) m.lookup m.entries :=
  ⟨List.pairwise_of_forall fun _ _ => trivial, m.distinct, m.holds⟩

theorem lookup_insert (m : ListedMap K V) (k : K) (v : V) :
    (m.insert k v).lookup = Plain.put m.lookup k v :=
  Plain.eq_put m.holds (m.insert k v).holds fun _ => Distinct.mem_insert_iff m.distinct

theorem lookup_erase (m : ListedMap K V) (k : K) :
    (m.erase k).lookup = Plain.remove m.lookup k :=
  Plain.eq_remove m.holds (m.erase k).holds fun _ => Distinct.mem_erase_iff

omit [DecidableEq K] in
theorem sifts_retain {σ : Type} (ask : σ → K × V → Except Panic (Bool × σ)) (t : σ)
    (m : ListedMap K V) :
    Sifts entries (ListedMap.retain ask t m) (sift ask t m.entries) := by
  unfold ListedMap.retain
  split
  · rename_i p hsift
    exact hsift.symm
  · rename_i kept u hsift
    exact hsift.symm

instance : LawfulMapStore (ListedMap K V) (fun _ _ => True) where
  lists := lists
  size_eq _ := rfl
  lookup_empty := rfl
  lookup_insert := lookup_insert
  insert_previous _ _ _ := rfl
  lookup_erase := lookup_erase
  erase_previous _ _ := rfl
  lookup_clear _ := rfl
  retain_ok {_ ask t _ m _} h := by
    obtain ⟨m', hm', rfl⟩ := (m.sifts_retain ask t).ok h
    exact ⟨m', hm', m'.holds⟩
  retain_error {_ ask t m _} h := (m.sifts_retain ask t).error h

end ListedMap

instance [DecidableEq K] : LawfulMapStore (UnorderedMap K V) (fun _ _ => True) where
  lists m := m.toListedMap.lists
  size_eq _ := rfl
  lookup_empty := rfl
  lookup_insert m := m.toListedMap.lookup_insert
  insert_previous _ _ _ := rfl
  lookup_erase m := m.toListedMap.lookup_erase
  erase_previous _ _ := rfl
  lookup_clear _ := rfl
  retain_ok {_ ask t _ m _} h := by
    obtain ⟨m', hm', rfl⟩ := (m.toListedMap.sifts_retain ask t).ok h
    refine ⟨⟨m'⟩, ?_, m'.holds⟩
    show (m.toListedMap.retain ask t).map _ = _
    rw [hm']
    rfl
  retain_error {_ ask t m _} h := by
    show (m.toListedMap.retain ask t).map _ = _
    rw [(m.toListedMap.sifts_retain ask t).error h]
    rfl

end SharedCells.Store
