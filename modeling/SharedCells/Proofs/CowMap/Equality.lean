import Mathlib.Data.List.Sort
import SharedCells.CowMap.EntrySet
import SharedCells.CowMap.KeySet
import SharedCells.Proofs.Store.Lawful
import SharedCells.Proofs.Store.LawfulSet

/-!
# Equality of views

Two key sets are compared by their sizes and by one inclusion only, and so are two entry sets. As
long as no key is listed twice, this comes to the same keys, and to values that are equal under
each of them. Equality of values may be any relation: a value need not even be equal to itself.

* `ShowsEntries` and `ShowsItems` say what is asked of a store; every lawful store does it.
* `length_eq_and_subset_iff` is the counting argument.
* `Agree` compares two stores key by key; `agree_iff` says that the check of one side does this.
* `views_equal` is the result, for the views of any stores, and for unordered and sorted maps.
-/

namespace SharedCells

namespace Store

/-! ## Stores that show what they hold -/

/-- A store lists the entry of each key once, in an order of its own, and its size counts them. -/
structure ShowsEntries {M K V : Type} [MapStore M K V] (w : M) : Prop where
  size_eq : MapStore.size w = (MapStore.entries w).length
  distinct : ((MapStore.entries w).map Prod.fst).Nodup
  holds : Plain.Holds (MapStore.lookup w) (MapStore.entries w)

/-- A store lists each of its items once, in an order of its own, and its size counts them. -/
structure ShowsItems {S α : Type} [SetStore S α] (s : S) : Prop where
  size_eq : SetStore.size s = (SetStore.items s).length
  distinct : (SetStore.items s).Nodup
  contains_iff : ∀ a, SetStore.contains s a = true ↔ a ∈ SetStore.items s

theorem showsEntries {M K V : Type} [MapStore M K V] [DecidableEq K] {before : K → K → Prop}
    [LawfulMapStore M before] (w : M) : ShowsEntries w :=
  ⟨LawfulMapStore.size_eq w, (LawfulMapStore.lists w).distinct, (LawfulMapStore.lists w).holds⟩

theorem showsItems {S α : Type} [SetStore S α] {alike : List α → List α → Prop}
    [LawfulSetStore S alike] (s : S) : ShowsItems s :=
  ⟨LawfulSetStore.size_eq s, LawfulSetStore.nodup s, LawfulSetStore.contains_iff s⟩

/-- Of two lists that repeat nothing, one of which is as long as the other and part of it, neither
has anything that the other lacks. -/
theorem length_eq_and_subset_iff {α : Type} {as bs : List α} (ha : as.Nodup) (hb : bs.Nodup) :
    as.length = bs.length ∧ as ⊆ bs ↔ ∀ a, a ∈ as ↔ a ∈ bs := by
  constructor
  · rintro ⟨hlength, hsub⟩ a
    have hperm : as.Perm bs := (List.subperm_of_subset ha hsub).perm_of_length_le hlength.ge
    exact hperm.mem_iff
  · intro hmem
    have hperm : as.Perm bs := (List.perm_ext_iff_of_nodup ha hb).2 hmem
    exact ⟨hperm.length_eq, hperm.subset⟩

section Agree

variable {M N O K V : Type} [MapStore M K V] [MapStore N K V] [MapStore O K V] {w : M} {w' : N}
  {w'' : O}

theorem ShowsEntries.isSome_iff (h : ShowsEntries w) {k : K} :
    (MapStore.lookup w k).isSome = true ↔ k ∈ (MapStore.entries w).map Prod.fst := by
  have hlists : Plain.Lists (fun _ _ => True) (MapStore.lookup w) (MapStore.entries w) :=
    ⟨List.pairwise_of_forall fun _ _ => trivial, h.distinct, h.holds⟩
  exact hlists.keys_mem_iff.symm

/-- A store has as many keys as there are others, and all of its keys are among them, exactly if
it has just those keys. -/
theorem ShowsEntries.keys_iff (h : ShowsEntries w) {ks : List K} (hks : ks.Nodup)
    {isThere : K → Bool} (hthere : ∀ k, isThere k = true ↔ k ∈ ks) :
    (MapStore.size w == ks.length && (MapStore.entries w).all fun (k, _) => isThere k) = true ↔
      ∀ k, (MapStore.lookup w k).isSome = isThere k := by
  have hall : ((MapStore.entries w).all fun (k, _) => isThere k) = true ↔
      (MapStore.entries w).map Prod.fst ⊆ ks := by
    rw [List.all_eq_true]
    constructor
    · intro hall k hk
      obtain ⟨e, he, rfl⟩ := List.mem_map.1 hk
      exact (hthere e.1).1 (hall e he)
    · intro hsub e he
      exact (hthere e.1).2 (hsub (List.mem_map_of_mem he))
  have hlength : MapStore.size w = ((MapStore.entries w).map Prod.fst).length := by
    rw [List.length_map, h.size_eq]
  rw [Bool.and_eq_true, beq_iff_eq, hall, hlength, length_eq_and_subset_iff h.distinct hks]
  refine forall_congr' fun k => ?_
  rw [← h.isSome_iff, ← hthere, ← Bool.eq_iff_iff]

/-- Two stores have the same keys, and their values under each key compare well. -/
def Agree (same : V → V → Bool) (w : M) (w' : N) : Prop :=
  (∀ k, (MapStore.lookup w k).isSome = (MapStore.lookup w' k).isSome) ∧
    ∀ k v v', MapStore.lookup w k = some v → MapStore.lookup w' k = some v' → same v v' = true

theorem agree_iff (h : ShowsEntries w) (h' : ShowsEntries w') (same : V → V → Bool) :
    (MapStore.size w == MapStore.size w' &&
        (MapStore.entries w).all fun (k, v) => (MapStore.lookup w' k).any (same v)) = true ↔
      Agree same w w' := by
  have hall : ((MapStore.entries w).all fun (k, v) => (MapStore.lookup w' k).any (same v)) = true ↔
      ((MapStore.entries w).all fun (k, _) => (MapStore.lookup w' k).isSome) = true ∧
        ∀ k v v', MapStore.lookup w k = some v → MapStore.lookup w' k = some v' →
          same v v' = true := by
    rw [List.all_eq_true, List.all_eq_true]
    constructor
    · intro hany
      refine ⟨fun e he => ?_, fun k v v' hv hv' => ?_⟩
      · obtain ⟨v', hv', -⟩ := (Option.any_eq_true _ _).1 (hany e he)
        exact Option.isSome_of_mem hv'
      · obtain ⟨v₀, hv₀, hsame⟩ := (Option.any_eq_true _ _).1 (hany (k, v) ((h.holds k v).1 hv))
        obtain rfl : v₀ = v' := Option.some.inj (hv₀.symm.trans hv')
        exact hsame
    · rintro ⟨hthere, hsame⟩ e he
      obtain ⟨v', hv'⟩ := Option.isSome_iff_exists.1 (hthere e he)
      exact (Option.any_eq_true _ _).2 ⟨v', hv', hsame e.1 e.2 v' ((h.holds _ _).2 he) hv'⟩
  have hlength : MapStore.size w' = ((MapStore.entries w').map Prod.fst).length := by
    rw [List.length_map, h'.size_eq]
  rw [Bool.and_eq_true, hall, ← and_assoc, ← Bool.and_eq_true, hlength,
    h.keys_iff h'.distinct fun k => h'.isSome_iff]
  rfl

theorem Agree.symm {same : V → V → Bool} (h : Agree same w w') :
    Agree (fun v v' => same v' v) w' w :=
  ⟨fun k => (h.1 k).symm, fun k v v' hv hv' => h.2 k v' v hv' hv⟩

theorem Agree.mono {same same' : V → V → Bool} (h : Agree same w w')
    (hsame : ∀ v v', same v v' = true → same' v v' = true) : Agree same' w w' :=
  ⟨h.1, fun k v v' hv hv' => hsame v v' (h.2 k v v' hv hv')⟩

theorem Agree.trans {same : V → V → Bool} (h : Agree same w w') (h' : Agree same w' w'')
    (hsame : ∀ a b c, same a b = true → same b c = true → same a c = true) :
    Agree same w w'' := by
  refine ⟨fun k => (h.1 k).trans (h'.1 k), fun k a c ha hc => ?_⟩
  -- The key is in the store between the two as well.
  have hthere : (MapStore.lookup w' k).isSome = true := by rw [← h.1 k, ha]; rfl
  obtain ⟨b, hb⟩ := Option.isSome_iff_exists.1 hthere
  exact hsame a b c (h.2 k a b ha hb) (h'.2 k b c hb hc)

end Agree

/-! ## Equality of maps -/

variable {K V : Type} [BEq V]

theorem UnorderedMap.beq_iff [DecidableEq K] (m n : UnorderedMap K V) :
    (m == n) = true ↔ Agree (· == ·) m n :=
  agree_iff (showsEntries m) (showsEntries n) (· == ·)

/-- Two lists of entries with distinct keys are equal when they have the same keys in the same order
and equal values under them. -/
theorem entries_beq_iff [BEq K] [LawfulBEq K] {es es' : List (K × V)}
    (hes : (es.map Prod.fst).Nodup) :
    (es == es') = true ↔ es.map Prod.fst = es'.map Prod.fst ∧
      ∀ k v v', (k, v) ∈ es → (k, v') ∈ es' → (v == v') = true := by
  induction es generalizing es' with
  | nil => cases es' <;> simp
  | cons e es ih =>
    cases es' with
    | nil => simp
    | cons e' es' =>
      obtain ⟨k, v⟩ := e
      obtain ⟨k', v'⟩ := e'
      obtain ⟨hk, hes⟩ := List.nodup_cons.1 hes
      have hhead : ((k, v) :: es == (k', v') :: es') = true ↔
          (k = k' ∧ (v == v') = true) ∧ (es == es') = true := by
        have hpair : ((k, v) == (k', v')) = (k == k' && v == v') := rfl
        rw [List.cons_beq_cons, Bool.and_eq_true, hpair, Bool.and_eq_true, beq_iff_eq]
      rw [hhead, ih hes]
      constructor
      · rintro ⟨⟨rfl, hv⟩, hkeys, hvalues⟩
        refine ⟨congrArg (k :: ·) hkeys, fun j u u' hu hu' => ?_⟩
        -- The first key is not there again, in either list.
        have hk' : k ∉ es'.map Prod.fst := hkeys ▸ hk
        rcases List.mem_cons.1 hu with hfirst | hu <;> rcases List.mem_cons.1 hu' with hfirst' | hu'
        · cases hfirst
          cases hfirst'
          exact hv
        · cases hfirst
          exact absurd (List.mem_map_of_mem hu') hk'
        · cases hfirst'
          exact absurd (List.mem_map_of_mem hu) hk
        · exact hvalues j u u' hu hu'
      · rintro ⟨hkeys, hvalues⟩
        obtain ⟨rfl, hrest⟩ := List.cons.inj hkeys
        exact ⟨⟨rfl, hvalues k v v' List.mem_cons_self List.mem_cons_self⟩, hrest,
          fun j u u' hu hu' =>
            hvalues j u u' (List.mem_cons_of_mem _ hu) (List.mem_cons_of_mem _ hu')⟩

/-- Two ascending lists of entries are equal when the maps that they show have the same keys, and
equal values under each of them. -/
theorem Plain.Lists.beq_iff [BEq K] [LawfulBEq K] [LE K] [LT K] [Std.IsLinearOrder K]
    [Std.LawfulOrderLT K] {m m' : Plain K V} {es es' : List (K × V)} (h : m.Lists (· < ·) es)
    (h' : m'.Lists (· < ·) es') :
    (es == es') = true ↔ (∀ k, (m k).isSome = (m' k).isSome) ∧
      ∀ k v v', m k = some v → m' k = some v' → (v == v') = true := by
  have hkeys : es.map Prod.fst = es'.map Prod.fst ↔ ∀ k, (m k).isSome = (m' k).isSome := by
    constructor
    · intro hsame k
      rw [Bool.eq_iff_iff, ← h.keys_mem_iff, ← h'.keys_mem_iff, hsame]
    · intro hsame
      refine List.Pairwise.eq_of_mem_iff (List.pairwise_map.2 h.ordered)
        (List.pairwise_map.2 h'.ordered) fun k => ?_
      rw [h.keys_mem_iff, h'.keys_mem_iff, hsame]
  rw [entries_beq_iff h.distinct, hkeys]
  simp only [← h.holds _ _, ← h'.holds _ _]

theorem SortedMap.beq_iff [BEq K] [LawfulBEq K] [LE K] [LT K] [DecidableLE K] [DecidableLT K]
    [Std.IsLinearOrder K] [Std.LawfulOrderLT K] (m n : SortedMap K V) :
    (m == n) = true ↔ Agree (· == ·) m n :=
  m.lists.beq_iff n.lists

end Store

open Store

/-! ## Equality of views -/

section Keys

variable {M N S K V W : Type} [MapStore M K V] [MapStore N K W] [SetStore S K]

theorem KeySet.equal_iff {m : CowMap M} {n : CowMap N} (hm : ShowsEntries m.contents)
    (hn : ShowsEntries n.contents) :
    KeySet.equal m n = true ↔ ∀ k, KeySet.contains m k = KeySet.contains n k := by
  rw [KeySet.equal, KeySet.sameKeys, hn.size_eq, ← List.length_map (f := Prod.fst)]
  exact hm.keys_iff hn.distinct fun k => hn.isSome_iff

theorem KeySet.equalsSet_iff {m : CowMap M} {s : S} (hm : ShowsEntries m.contents)
    (hs : ShowsItems s) :
    KeySet.equalsSet m s = true ↔ ∀ k, KeySet.contains m k = SetStore.contains s k := by
  rw [KeySet.equalsSet, KeySet.sameKeys, hs.size_eq]
  exact hm.keys_iff hs.distinct hs.contains_iff

end Keys

section Entries

variable {M N K V : Type} [MapStore M K V] [MapStore N K V] [BEq V]

theorem EntrySet.equalsStore_iff {m : CowMap M} {w : N} (hm : ShowsEntries m.contents)
    (hw : ShowsEntries w) :
    EntrySet.equalsStore m w = true ↔ Agree (fun ours theirs => theirs == ours) m.contents w := by
  have hcheck : EntrySet.equalsStore m w =
      (MapStore.size m.contents == MapStore.size w && (MapStore.entries m.contents).all
        fun (k, v) => (MapStore.lookup w k).any fun theirs => theirs == v) := by
    rw [EntrySet.equalsStore]
    congr 2
    funext ⟨k, v⟩
    show (MapStore.lookup w k == some v) = (MapStore.lookup w k).any fun theirs => theirs == v
    cases MapStore.lookup w k <;> rfl
  rw [hcheck]
  exact agree_iff hm hw fun ours theirs => theirs == ours

end Entries

namespace CowMap

variable {M N O S K V : Type} [MapStore M K V] [MapStore N K V] [MapStore O K V] [SetStore S K]
  [BEq V]

/-- What equality of the views of a map comes to, next to other maps, a plain map and a set. -/
structure ViewEquality (m : CowMap M) (n : CowMap N) (o : CowMap O) (w : N) (s : S) : Prop where
  keys : KeySet.equal m n = true ↔ ∀ k, KeySet.contains m k = KeySet.contains n k
  keys_set : KeySet.equalsSet m s = true ↔ ∀ k, KeySet.contains m k = SetStore.contains s k
  entries : EntrySet.equal m n = true ↔
    (∀ k, KeySet.contains m k = KeySet.contains n k) ∧
      ∀ k v v', m.get? k = some v → n.get? k = some v' → (v' == v) = true
  entries_store : EntrySet.equalsStore m w = true ↔
    (∀ k, KeySet.contains m k = (MapStore.lookup w k).isSome) ∧
      ∀ k v v', m.get? k = some v → MapStore.lookup w k = some v' → (v' == v) = true
  keys_refl : KeySet.equal m m = true
  keys_symm : KeySet.equal m n = KeySet.equal n m
  keys_trans : KeySet.equal m n = true → KeySet.equal n o = true → KeySet.equal m o = true
  entries_symm : (∀ a b : V, (a == b) = true → (b == a) = true) →
    EntrySet.equal m n = EntrySet.equal n m
  entries_trans : (∀ a b c : V, (a == b) = true → (b == c) = true → (a == c) = true) →
    EntrySet.equal m n = true → EntrySet.equal n o = true → EntrySet.equal m o = true
  /-- Whatever equality of values is, and be it of no value to itself. -/
  keys_of_entries : EntrySet.equal m n = true → KeySet.equal m n = true

theorem viewEquality {m : CowMap M} {n : CowMap N} {o : CowMap O} {w : N} {s : S}
    (hm : ShowsEntries m.contents) (hn : ShowsEntries n.contents) (ho : ShowsEntries o.contents)
    (hw : ShowsEntries w) (hs : ShowsItems s) : ViewEquality m n o w s := by
  have hkeys := KeySet.equal_iff hm hn
  have hentries : EntrySet.equal m n = true ↔
      Agree (fun ours theirs => theirs == ours) m.contents n.contents :=
    EntrySet.equalsStore_iff hm hn
  refine ⟨hkeys, KeySet.equalsSet_iff hm hs, hentries, EntrySet.equalsStore_iff hm hw, ?_, ?_, ?_,
    fun hsymm => ?_, fun htrans hmn hno => ?_, fun h => hkeys.2 (hentries.1 h).1⟩
  · exact (KeySet.equal_iff hm hm).2 fun _ => rfl
  · rw [Bool.eq_iff_iff, hkeys, KeySet.equal_iff hn hm]
    exact forall_congr' fun k => eq_comm
  · intro hmn hno
    exact (KeySet.equal_iff hm ho).2 fun k =>
      (hkeys.1 hmn k).trans ((KeySet.equal_iff hn ho).1 hno k)
  · rw [Bool.eq_iff_iff, hentries]
    refine Iff.trans ?_ (EntrySet.equalsStore_iff hn hm).symm
    exact ⟨fun h => h.symm.mono fun v v' => hsymm v v', fun h => h.symm.mono fun v v' => hsymm v v'⟩
  · have hmid := hentries.1 hmn
    have hlast := (EntrySet.equalsStore_iff hn ho).1 hno
    exact (EntrySet.equalsStore_iff hm ho).2
      (hmid.trans hlast fun a b c hba hcb => htrans c b a hcb hba)

/-- Entry sets compare as their maps do, from the other side. -/
structure AsMaps [BEq M] (m n : CowMap M) : Prop where
  flipped : EntrySet.equal m n = (n.contents == m.contents)
  same : (∀ a b : V, (a == b) = true → (b == a) = true) →
    EntrySet.equal m n = (m.contents == n.contents)

theorem asMaps [BEq M] {m n : CowMap M} (hm : ShowsEntries m.contents)
    (hn : ShowsEntries n.contents) (hbeq : ∀ w w' : M, (w == w') = true ↔ Agree (· == ·) w w') :
    AsMaps m n := by
  have hentries : EntrySet.equal m n = true ↔
      Agree (fun ours theirs => theirs == ours) m.contents n.contents :=
    EntrySet.equalsStore_iff hm hn
  refine ⟨?_, fun hsymm => ?_⟩
  · rw [Bool.eq_iff_iff, hentries, hbeq]
    exact ⟨Agree.symm, Agree.symm⟩
  · rw [Bool.eq_iff_iff, hentries, hbeq]
    exact ⟨fun h => h.mono fun v v' => hsymm v' v, fun h => h.mono fun v v' => hsymm v v'⟩

theorem asMaps_unordered [DecidableEq K] (m n : CowMap (UnorderedMap K V)) : AsMaps m n :=
  asMaps (showsEntries _) (showsEntries _) UnorderedMap.beq_iff

theorem asMaps_sorted [BEq K] [LawfulBEq K] [LE K] [LT K] [DecidableLE K] [DecidableLT K]
    [Std.IsLinearOrder K] [Std.LawfulOrderLT K] (m n : CowMap (SortedMap K V)) : AsMaps m n := by
  have : DecidableEq K := instDecidableEqOfLawfulBEq
  exact asMaps (showsEntries _) (showsEntries _) SortedMap.beq_iff

/-- Views are equal when they hold the same keys, and equal values under each of them; and entry
sets are equal when their maps are. -/
theorem views_equal {m : CowMap M} {n : CowMap N} {o : CowMap O} {w : N} {s : S}
    (hm : ShowsEntries m.contents) (hn : ShowsEntries n.contents) (ho : ShowsEntries o.contents)
    (hw : ShowsEntries w) (hs : ShowsItems s) :
    ViewEquality m n o w s ∧
      (∀ {K V : Type} [DecidableEq K] [BEq V] (m n : CowMap (UnorderedMap K V)), AsMaps m n) ∧
      ∀ {K V : Type} [BEq K] [LawfulBEq K] [LE K] [LT K] [DecidableLE K] [DecidableLT K]
        [Std.IsLinearOrder K] [Std.LawfulOrderLT K] [BEq V] (m n : CowMap (SortedMap K V)),
        AsMaps m n :=
  ⟨viewEquality hm hn ho hw hs, asMaps_unordered, asMaps_sorted⟩

/-- Three maps in three orders, over values one of which is not equal to itself, and a set of their
keys. -/
theorem views_equal_examples :
    let _ : BEq (Option Nat) := ⟨fun a b => a.isSome && decide (a = b)⟩
    let cell {M : Type} (contents : M) : CowMap M := (CopyOnWrite.new contents ⟨0, 0⟩).1
    let m : CowMap (UnorderedMap Nat (Option Nat)) :=
      cell (MapStore.ofList [(2, some 7), (1, none)])
    let n : CowMap (SortedMap Nat (Option Nat)) := cell (MapStore.ofList [(2, some 7), (1, none)])
    let o : CowMap (ListedMap Nat (Option Nat)) := cell (MapStore.ofList [(1, none), (2, some 7)])
    let w : SortedMap Nat (Option Nat) := MapStore.ofList [(1, some 4), (2, some 7)]
    let s : UnorderedSet Nat := SetStore.ofList [1, 2]
    ShowsEntries m.contents ∧ ShowsEntries n.contents ∧ ShowsEntries o.contents ∧
      ShowsEntries w ∧ ShowsItems s ∧ ViewEquality m n o w s ∧
      KeySet.equal m n = true ∧ KeySet.equal n o = true ∧ KeySet.equalsSet m s = true ∧
      EntrySet.equal m n = false ∧ EntrySet.equal m m = false ∧ EntrySet.equalsStore m w = false ∧
      AsMaps m m := by
  intro _ cell m n o w s
  have hviews := views_equal (m := m) (n := n) (o := o) (w := w) (s := s) (showsEntries _)
    (showsEntries _) (showsEntries _) (showsEntries _) (showsItems _)
  exact ⟨showsEntries _, showsEntries _, showsEntries _, showsEntries _, showsItems _, hviews.1,
    by decide, by decide, by decide, by decide, by decide, by decide, hviews.2.1 m m⟩

end CowMap

end SharedCells
