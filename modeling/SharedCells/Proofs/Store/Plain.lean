import Mathlib.Data.List.Nodup
import Mathlib.Data.List.Perm.Basic
import Mathlib.Tactic.ByContra
import SharedCells.Store.Basic

/-!
# Plain maps

A plain map is what a store is about: the value under each key. It has no order of its own, so
it is compared with the list of entries that a store shows.

* `Plain.Lists` says which lists show a plain map: every entry once, in an order that the store
  promises. A store without an order promises the order that holds between any two keys.
* `Asks` says what comes of asking a predicate about the members of a list, and `asks_iff_sift`
  that this is how stores drop entries.
-/

namespace SharedCells.Store

/-- A finite map without an order, as the value under each key. -/
abbrev Plain (K V : Type) := K → Option V

namespace Plain

variable {K V : Type}

def empty : Plain K V := fun _ => none

/-- Whether a change took an entry away. -/
def Loses (m m' : Plain K V) : Prop := ∃ k, m k ≠ none ∧ m' k = none

/-- Whether a map has exactly the entries of a list. -/
def Holds (m : Plain K V) (es : List (K × V)) : Prop := ∀ k v, m k = some v ↔ (k, v) ∈ es

section Update

variable [DecidableEq K]

def put (m : Plain K V) (k : K) (v : V) : Plain K V := fun k' => if k' = k then some v else m k'

def remove (m : Plain K V) (k : K) : Plain K V := fun k' => if k' = k then none else m k'

/-- The map with the values of several pairs put under their keys, one after another. -/
def putAll (m : Plain K V) (es : List (K × V)) : Plain K V :=
  es.foldl (fun m e => m.put e.1 e.2) m

theorem loses_remove_iff (m : Plain K V) (k : K) : m.Loses (m.remove k) ↔ (m k).isSome := by
  constructor
  · rintro ⟨k', hk', h⟩
    by_cases hk : k' = k
    · subst hk
      exact Option.isSome_iff_ne_none.2 hk'
    · rw [remove, if_neg hk] at h
      exact absurd h hk'
  · intro h
    exact ⟨k, Option.isSome_iff_ne_none.1 h, if_pos rfl⟩

theorem remove_of_none {m : Plain K V} {k : K} (h : m k = none) : m.remove k = m := by
  funext k'
  by_cases hk : k' = k
  · rw [remove, if_pos hk, hk, h]
  · rw [remove, if_neg hk]

/-- If a key is gone in the end, it does not matter whether it goes first. -/
theorem loses_iff_remove {m m' : Plain K V} {k : K} (hk : m' k = none) :
    m.Loses m' ↔ (m k).isSome ∨ (m.remove k).Loses m' := by
  constructor
  · rintro ⟨k', hm, hm'⟩
    by_cases hkk : k' = k
    · subst hkk
      exact Or.inl (Option.isSome_iff_ne_none.2 hm)
    · exact Or.inr ⟨k', by rwa [remove, if_neg hkk], hm'⟩
  · rintro (hm | ⟨k', hm, hm'⟩)
    · exact ⟨k, Option.isSome_iff_ne_none.1 hm, hk⟩
    · by_cases hkk : k' = k
      · exact absurd (if_pos hkk) hm
      · exact ⟨k', by rwa [remove, if_neg hkk] at hm, hm'⟩

variable {m m' : Plain K V} {es es' : List (K × V)}

/-- A list in which a pair has taken the place of its key's entry holds the map with that value
put under the key. -/
theorem eq_put (h : m.Holds es) (h' : m'.Holds es') {k : K} {v : V}
    (hmem : ∀ e, e ∈ es' ↔ e = (k, v) ∨ e ∈ es ∧ e.1 ≠ k) : m' = m.put k v := by
  funext k'
  refine Option.ext fun v' => ?_
  rw [h' k' v', hmem, put]
  by_cases hk : k' = k
  · subst hk
    simp [eq_comm]
  · simp [hk, h k' v']

/-- A list that lacks a key's entry alone holds the map without that key. -/
theorem eq_remove (h : m.Holds es) (h' : m'.Holds es') {k : K}
    (hmem : ∀ e, e ∈ es' ↔ e ∈ es ∧ e.1 ≠ k) : m' = m.remove k := by
  funext k'
  refine Option.ext fun v' => ?_
  rw [h' k' v', hmem, remove]
  by_cases hk : k' = k
  · simp [hk]
  · simp [hk, h k' v']

end Update

theorem not_loses_self (m : Plain K V) : ¬ m.Loses m := fun ⟨_, h, h'⟩ => h h'

/-- The head of a list in order is the one member that no other comes before. -/
theorem head?_eq_some_iff_of_pairwise {R : K → K → Prop} (hasymm : ∀ a b, R a b → ¬ R b a)
    {ks : List K} (h : ks.Pairwise R) {k : K} :
    ks.head? = some k ↔ k ∈ ks ∧ ∀ k' ∈ ks, k' = k ∨ R k k' := by
  cases h with
  | nil => simp
  | @cons a ks hfirst _ =>
    rw [List.head?_cons, Option.some_inj]
    constructor
    · rintro rfl
      refine ⟨List.mem_cons_self, fun k' hk' => ?_⟩
      rcases List.mem_cons.1 hk' with rfl | hk'
      · exact Or.inl rfl
      · exact Or.inr (hfirst k' hk')
    · rintro ⟨hk, hleast⟩
      rcases List.mem_cons.1 hk with rfl | hk
      · rfl
      · rcases hleast a List.mem_cons_self with heq | hbefore
        · exact heq
        · exact absurd hbefore (hasymm _ _ (hfirst k hk))

/-- A list that shows a map: it holds every entry of the map once, in the promised order. -/
structure Lists (before : K → K → Prop) (m : Plain K V) (es : List (K × V)) : Prop where
  /-- Of two entries the earlier one has the earlier key. -/
  ordered : es.Pairwise fun a b => before a.1 b.1
  distinct : (es.map Prod.fst).Nodup
  holds : m.Holds es

namespace Lists

variable {before : K → K → Prop} {m : Plain K V} {es : List (K × V)}

theorem mem_iff (h : Lists before m es) {e : K × V} : e ∈ es ↔ m e.1 = some e.2 :=
  (h.holds e.1 e.2).symm

theorem keys_mem_iff (h : Lists before m es) {k : K} : k ∈ es.map Prod.fst ↔ (m k).isSome := by
  rw [List.mem_map, Option.isSome_iff_exists]
  constructor
  · rintro ⟨e, he, rfl⟩
    exact ⟨e.2, h.mem_iff.1 he⟩
  · rintro ⟨v, hv⟩
    exact ⟨(k, v), h.mem_iff.2 hv, rfl⟩

theorem eq_nil_iff (h : Lists before m es) : es = [] ↔ ∀ k, m k = none := by
  rw [List.eq_nil_iff_forall_not_mem]
  constructor
  · intro hnil k
    refine Option.eq_none_iff_forall_ne_some.2 fun v hv => ?_
    exact hnil (k, v) (h.mem_iff.2 hv)
  · intro hnone e he
    rw [h.mem_iff, hnone] at he
    cases he

/-- The first entry of a list that passes a test comes before every other one that does. -/
theorem of_find?_eq_some (h : Lists before m es) {p : K × V → Bool} {e : K × V}
    (hfind : es.find? p = some e) :
    m e.1 = some e.2 ∧ p e = true ∧
      ∀ e', m e'.1 = some e'.2 → p e' = true → e'.1 = e.1 ∨ before e.1 e'.1 := by
  obtain ⟨hp, as, bs, hes, has⟩ := List.find?_eq_some_iff_append.1 hfind
  refine ⟨h.mem_iff.1 (List.mem_of_find?_eq_some hfind), hp, fun e' hm' hp' => ?_⟩
  have hmem := h.mem_iff.2 hm'
  rw [hes, List.mem_append, List.mem_cons] at hmem
  rcases hmem with hmem | rfl | hmem
  · have hno := has e' hmem
    simp [hp'] at hno
  · exact Or.inl rfl
  · have hordered := hes ▸ h.ordered
    exact Or.inr ((List.pairwise_cons.1 (List.pairwise_append.1 hordered).2.1).1 e' hmem)

theorem head?_keys_iff (h : Lists before m es) (hasymm : ∀ a b, before a b → ¬ before b a)
    {k : K} :
    es.head?.map Prod.fst = some k ↔
      (m k).isSome ∧ ∀ k', (m k').isSome → k' = k ∨ before k k' := by
  have hkeys : (es.map Prod.fst).Pairwise before := List.pairwise_map.2 h.ordered
  rw [← List.head?_map, head?_eq_some_iff_of_pairwise hasymm hkeys, h.keys_mem_iff]
  simp only [h.keys_mem_iff]

theorem getLast?_keys_iff (h : Lists before m es) (hasymm : ∀ a b, before a b → ¬ before b a)
    {k : K} :
    es.getLast?.map Prod.fst = some k ↔
      (m k).isSome ∧ ∀ k', (m k').isSome → k' = k ∨ before k' k := by
  have hkeys : (es.map Prod.fst).reverse.Pairwise fun a b => before b a :=
    List.pairwise_reverse.2 (List.pairwise_map.2 h.ordered)
  rw [← List.getLast?_map, ← List.head?_reverse,
    head?_eq_some_iff_of_pairwise (fun a b hab hba => hasymm a b hba hab) hkeys,
    List.mem_reverse, h.keys_mem_iff]
  simp only [List.mem_reverse, h.keys_mem_iff]

/-- What a part of a list holds is shown by that part. -/
theorem sublist {m' : Plain K V} {kept : List (K × V)} (h : Lists before m es)
    (hs : kept.Sublist es) (hm : m'.Holds kept) : Lists before m' kept :=
  ⟨h.ordered.sublist hs, h.distinct.sublist (hs.map _), hm⟩

/-- Two lists that show one map hold the same entries, in whatever order. -/
theorem perm {before' : K → K → Prop} {es' : List (K × V)} (h : Lists before m es)
    (h' : Lists before' m es') : es.Perm es' := by
  refine (List.perm_ext_iff_of_nodup (.of_map _ h.distinct) (.of_map _ h'.distinct)).2 fun e => ?_
  rw [h.mem_iff, h'.mem_iff]

/-- Dropping a key takes its entry out of the list. -/
theorem perm_cons_remove [DecidableEq K] {before' : K → K → Prop} {es' : List (K × V)}
    {e : K × V} (h : Lists before m es) (he : m e.1 = some e.2)
    (h' : Lists before' (m.remove e.1) es') : es.Perm (e :: es') := by
  have hgone : e ∉ es' := by
    rw [h'.mem_iff, Plain.remove, if_pos rfl]
    exact nofun
  refine (List.perm_ext_iff_of_nodup (.of_map _ h.distinct)
    (List.nodup_cons.2 ⟨hgone, .of_map _ h'.distinct⟩)).2 fun e' => ?_
  rw [List.mem_cons, h.mem_iff, h'.mem_iff, Plain.remove]
  by_cases hkey : e'.1 = e.1
  · rw [if_pos hkey, hkey, he]
    simp [Prod.ext_iff, hkey, eq_comm]
  · rw [if_neg hkey]
    exact (or_iff_right fun heq => hkey (congrArg Prod.fst heq)).symm

/-- Keeping a part of the entries loses one exactly if the part is shorter. -/
theorem loses_iff_length (h : Lists before m es) {m' : Plain K V} {kept : List (K × V)}
    (hs : kept.Sublist es) (hm : m'.Holds kept) :
    m.Loses m' ↔ kept.length ≠ es.length := by
  have h' := h.sublist hs hm
  constructor
  · rintro ⟨k, hk, hk'⟩ hlen
    have heq := hs.eq_of_length hlen
    subst heq
    rw [← Option.isSome_iff_ne_none, ← h.keys_mem_iff, h'.keys_mem_iff, hk'] at hk
    cases hk
  · intro hlen
    by_contra hno
    refine hlen (Nat.le_antisymm hs.length_le ?_)
    have hsub : es.map Prod.fst ⊆ kept.map Prod.fst := by
      intro k hk
      rw [h'.keys_mem_iff, Option.isSome_iff_ne_none]
      rw [h.keys_mem_iff, Option.isSome_iff_ne_none] at hk
      exact fun hk' => hno ⟨k, hk, hk'⟩
    simpa using (List.subperm_of_subset h.distinct hsub).length_le

end Lists

end Plain

/-! ## Asking a predicate -/

section Asks

variable {σ α : Type}

/-- What comes of asking a predicate about the members of a list, each one once and in the order
of the list: the members that it keeps and its last state, or the panic that ends the asking. -/
inductive Asks (ask : σ → α → Except Panic (Bool × σ)) :
    σ → List α → Except Panic (List α × σ) → Prop
  | done (t : σ) : Asks ask t [] (.ok ([], t))
  | panics {t : σ} {a : α} {as : List α} {p : Panic} :
    ask t a = .error p → Asks ask t (a :: as) (.error p)
  | keeps {t t' u : σ} {a : α} {as kept : List α} :
    ask t a = .ok (true, t') → Asks ask t' as (.ok (kept, u)) →
      Asks ask t (a :: as) (.ok (a :: kept, u))
  | drops {t t' u : σ} {a : α} {as kept : List α} :
    ask t a = .ok (false, t') → Asks ask t' as (.ok (kept, u)) →
      Asks ask t (a :: as) (.ok (kept, u))
  | panicsLater {t t' : σ} {a : α} {as : List α} {b : Bool} {p : Panic} :
    ask t a = .ok (b, t') → Asks ask t' as (.error p) → Asks ask t (a :: as) (.error p)

variable {ask : σ → α → Except Panic (Bool × σ)}

theorem asks_sift (t : σ) (as : List α) : Asks ask t as (sift ask t as) := by
  fun_induction sift ask t as with
  | case1 t => exact .done t
  | case2 t a as p h => exact .panics h
  | case3 t a as keep t' h p hrest ih => exact .panicsLater h (hrest ▸ ih)
  | case4 t a as keep t' h kept u hrest ih =>
    rw [hrest] at ih
    cases keep
    · exact .drops h ih
    · exact .keeps h ih

theorem Asks.eq_sift {t : σ} {as : List α} {out : Except Panic (List α × σ)}
    (h : Asks ask t as out) : sift ask t as = out := by
  induction h with
  | done => rfl
  | panics h => simp only [sift, h]
  | keeps h _ ih => simp only [sift, h, ih, if_true]
  | drops h _ ih => simp [sift, h, ih]
  | panicsLater h _ ih => simp only [sift, h, ih]

end Asks

end SharedCells.Store
