import Mathlib.Algebra.BigOperators.Group.List.Basic
import Mathlib.Data.UInt
import SharedCells.Proofs.CowMap.Equality
import SharedCells.Proofs.CowMap.PlainMap

/-!
# Digests of views

Equality of views goes by sizes and lookups, while a digest adds up what the items give, in the
order in which the store happens to list them. The two fit together because each store lists a key
once: views that are equal list the same items, the one in another order than the other, and a sum
of words does not depend on the order.

* `summed` is what a view gives to a digest, with any function as the digest of a single item, and
  `unorderedBytes_eq` says that the views give just this.
* `summed_congr`: it depends on the bytes of the items alone, in whatever order.
* `keys_perm` and `bytes_perm`: what equality of views makes of the lists of two stores.
* `views_digest` is the result, for maps over any lawful stores.
-/

namespace SharedCells

open Store

namespace Digest

variable {α β : Type} [Fingerprint α] [Fingerprint β]

/-- How many items there are, and the sum of their digests modulo `2 ^ 64`. -/
def summed (digest : List UInt8 → UInt64) (items : List α) : List UInt8 :=
  countBytes items.length ++ wordBytes ((items.map fun a => digest (bytes a)).sum)

theorem unorderedBytes_eq (items : List α) : unorderedBytes items = summed Sip.digest items := by
  -- The fold from any count and any sum, so that the induction can go through.
  have hfold : ∀ (count : Nat) (sum : UInt64),
      items.foldl (fun p item => (p.1 + 1, p.2 + fingerprint item)) (count, sum) =
        (count + items.length, sum + (items.map fun a => Sip.digest (bytes a)).sum) := by
    induction items with
    | nil => simp
    | cons a as ih =>
      intro count sum
      rw [List.foldl_cons, ih, List.length_cons, List.map_cons, List.sum_cons, fingerprint,
        UInt64.add_assoc, Nat.add_assoc, Nat.add_comm 1]
  have hadded : unorderedBytes items =
      countBytes (items.foldl (fun p item => (p.1 + 1, p.2 + fingerprint item)) (0, 0)).1 ++
        wordBytes (items.foldl (fun p item => (p.1 + 1, p.2 + fingerprint item)) (0, 0)).2 := rfl
  rw [hadded, hfold, Nat.zero_add, UInt64.zero_add, summed]

/-- Items that give the same bytes, in whatever order, are summed up to the same. -/
theorem summed_congr (digest : List UInt8 → UInt64) {as : List α} {bs : List β}
    (h : (as.map bytes).Perm (bs.map bytes)) : summed digest as = summed digest bs := by
  have hlength : as.length = bs.length := by simpa using h.length_eq
  have hsum := (h.map digest).sum_eq
  rw [List.map_map, List.map_map] at hsum
  rw [summed, summed, hlength]
  exact congrArg (countBytes bs.length ++ wordBytes ·) hsum

end Digest

open Digest

/-! ## The lists of two stores -/

namespace Store

section Lists

variable {M N K V W : Type} [MapStore M K V] {w : M}

theorem ShowsEntries.keys_perm [MapStore N K W] {w' : N} (h : ShowsEntries w)
    (h' : ShowsEntries w')
    (hkeys : ∀ k, (MapStore.lookup w k).isSome = (MapStore.lookup w' k).isSome) :
    ((MapStore.entries w).map Prod.fst).Perm ((MapStore.entries w').map Prod.fst) := by
  refine (List.perm_ext_iff_of_nodup h.distinct h'.distinct).2 fun k => ?_
  rw [← h.isSome_iff, ← h'.isSome_iff, hkeys]

/-- The keys of a store, each with what its value gives to a digest. -/
def keyed [Fingerprint V] (w : M) : List (K × List UInt8) :=
  (MapStore.entries w).map fun e => (e.1, bytes e.2)

variable [Fingerprint V]

theorem ShowsEntries.keyed_nodup (h : ShowsEntries w) : (keyed w).Nodup := by
  have hkeys : (keyed w).map Prod.fst = (MapStore.entries w).map Prod.fst := by
    rw [keyed, List.map_map]
    rfl
  exact List.Nodup.of_map Prod.fst (hkeys ▸ h.distinct)

theorem ShowsEntries.mem_keyed_iff (h : ShowsEntries w) {k : K} {b : List UInt8} :
    (k, b) ∈ keyed w ↔ ∃ v, MapStore.lookup w k = some v ∧ bytes v = b := by
  rw [keyed, List.mem_map]
  constructor
  · rintro ⟨e, he, heq⟩
    cases heq
    exact ⟨e.2, (h.holds e.1 e.2).2 he, rfl⟩
  · rintro ⟨v, hv, rfl⟩
    exact ⟨(k, v), (h.holds k v).1 hv, rfl⟩

variable [MapStore N K V] {w' : N}

theorem ShowsEntries.keyed_subset (h : ShowsEntries w) (h' : ShowsEntries w')
    (hagree : Agree (fun v v' => decide (bytes v = bytes v')) w w') : keyed w ⊆ keyed w' := by
  rintro ⟨k, b⟩ hmem
  obtain ⟨v, hv, rfl⟩ := h.mem_keyed_iff.1 hmem
  have hthere : (MapStore.lookup w' k).isSome = true := by rw [← hagree.1 k, hv]; rfl
  obtain ⟨v', hv'⟩ := Option.isSome_iff_exists.1 hthere
  exact h'.mem_keyed_iff.2 ⟨v', hv', (of_decide_eq_true (hagree.2 k v v' hv hv')).symm⟩

/-- Values that give the same bytes under the same keys: the entries give the same bytes. -/
theorem ShowsEntries.bytes_perm [Fingerprint K] (h : ShowsEntries w) (h' : ShowsEntries w')
    (hagree : Agree (fun v v' => decide (bytes v = bytes v')) w w') :
    ((MapStore.entries w).map bytes).Perm ((MapStore.entries w').map bytes) := by
  have hback : Agree (fun v v' => decide (bytes v = bytes v')) w' w :=
    hagree.symm.mono fun v v' hv => decide_eq_true (of_decide_eq_true hv).symm
  have hkeyed : (keyed w).Perm (keyed w') :=
    (List.perm_ext_iff_of_nodup h.keyed_nodup h'.keyed_nodup).2 fun _ =>
      ⟨(h.keyed_subset h' hagree ·), (h'.keyed_subset h hback ·)⟩
  have hmap : ∀ es : List (K × V), es.map bytes =
      (es.map fun e => (e.1, bytes e.2)).map fun p => bytes p.1 ++ p.2 := fun es => by
    rw [List.map_map]
    rfl
  rw [hmap, hmap]
  exact hkeyed.map _

end Lists

end Store

/-! ## Digests of views -/

section Keys

variable {M O K V W : Type} [MapStore M K V] [MapStore O K W] [Fingerprint K]

theorem KeySet.bytes_eq_summed (m : CowMap M) :
    KeySet.bytes m = summed Sip.digest (KeySet.iter m).items := unorderedBytes_eq _

/-- What the key sets of two maps give to a digest. -/
structure KeyDigests (m : CowMap M) (o : CowMap O) : Prop where
  /-- A key set gives its size and the sum of the digests of its keys. -/
  sum : KeySet.bytes m = summed Sip.digest (KeySet.iter m).items
  /-- With the same keys the sums are the same, whatever digests a single key. -/
  same : (∀ k, KeySet.contains m k = KeySet.contains o k) → ∀ digest,
    summed digest (KeySet.iter m).items = summed digest (KeySet.iter o).items
  equal : KeySet.equal m o = true → KeySet.bytes m = KeySet.bytes o

theorem keyDigests {m : CowMap M} {o : CowMap O} (hm : ShowsEntries m.contents)
    (ho : ShowsEntries o.contents) : KeyDigests m o := by
  have hsame : (∀ k, KeySet.contains m k = KeySet.contains o k) → ∀ digest,
      summed digest (KeySet.iter m).items = summed digest (KeySet.iter o).items :=
    fun hkeys digest => summed_congr digest ((hm.keys_perm ho hkeys).map bytes)
  refine ⟨KeySet.bytes_eq_summed m, hsame, fun hequal => ?_⟩
  rw [KeySet.bytes_eq_summed, KeySet.bytes_eq_summed, hsame ((KeySet.equal_iff hm ho).1 hequal)]

end Keys

section Entries

variable {M N K V : Type} [MapStore M K V] [MapStore N K V] [Fingerprint K] [Fingerprint V]

theorem EntrySet.bytes_eq_summed (m : CowMap M) :
    EntrySet.bytes m = summed Sip.digest (EntrySet.iter m).items := unorderedBytes_eq _

variable [BEq V]

/-- What the entry sets of two maps give to a digest. -/
structure EntryDigests (m : CowMap M) (n : CowMap N) : Prop where
  /-- An entry set gives its size and the sum of the digests of its pairs. -/
  sum : EntrySet.bytes m = summed Sip.digest (EntrySet.iter m).items
  /-- With equal values under the same keys the sums are the same, whatever digests a pair. -/
  same : (∀ k, KeySet.contains m k = KeySet.contains n k) →
    (∀ k v v', m.get? k = some v → n.get? k = some v' → (v' == v) = true) → ∀ digest,
      summed digest (EntrySet.iter m).items = summed digest (EntrySet.iter n).items
  equal : EntrySet.equal m n = true → EntrySet.bytes m = EntrySet.bytes n

theorem entryDigests {m : CowMap M} {n : CowMap N} (hm : ShowsEntries m.contents)
    (hn : ShowsEntries n.contents) (hvalues : ∀ v v' : V, (v' == v) = true → bytes v' = bytes v) :
    EntryDigests m n := by
  have hsame : Agree (fun v v' => v' == v) m.contents n.contents → ∀ digest,
      summed digest (EntrySet.iter m).items = summed digest (EntrySet.iter n).items := by
    intro hagree digest
    refine summed_congr digest (hm.bytes_perm hn (hagree.mono fun v v' hv => ?_))
    exact decide_eq_true (hvalues v v' hv).symm
  refine ⟨EntrySet.bytes_eq_summed m, fun hkeys heq => hsame ⟨hkeys, heq⟩, fun hequal => ?_⟩
  rw [EntrySet.bytes_eq_summed, EntrySet.bytes_eq_summed,
    hsame ((EntrySet.equalsStore_iff hm hn).1 hequal)]

end Entries

namespace CowMap

variable {M N O K V W : Type} [MapStore M K V] [MapStore N K V] [MapStore O K W]
  [Fingerprint K] [Fingerprint V] [BEq V]

/-- Whatever was done to the maps, over whatever stores: views that are equal give the same to a
digest, entry sets as long as equal values do. Equal keys are one and the same. -/
theorem views_digest [DecidableEq K] {before before' before'' : K → K → Prop}
    [LawfulMapStore M before] [LawfulMapStore N before'] [LawfulMapStore O before'']
    (m : CowMap M) (n : CowMap N) (o : CowMap O) :
    KeyDigests m o ∧
      ((∀ v v' : V, (v' == v) = true → bytes v' = bytes v) → EntryDigests m n) :=
  ⟨keyDigests (showsEntries m.contents) (showsEntries o.contents),
    entryDigests (showsEntries m.contents) (showsEntries n.contents)⟩

/-- An unordered map and a sorted one that came to the same entries on different ways and list them
in different orders, and a third map with other values under the same keys. -/
theorem views_digest_examples :
    let puts {M V : Type} [MapStore M UInt64 V] (es : List (UInt64 × V)) : CowMap M :=
      (CowMap.putAll (CopyOnWrite.new MapStore.empty {}).1 {} (.ofList es)).cell
    let m : CowMap (UnorderedMap UInt64 String) :=
      (CowMap.remove (puts [(7, "a"), (9, "c"), (3, "b")]) {} 9).cell
    let n : CowMap (SortedMap UInt64 String) := puts [(3, "a"), (7, "a"), (3, "b")]
    let o : CowMap (ListedMap UInt64 (Option Nat)) := puts [(3, none), (7, some 1)]
    (∀ v v' : String, (v' == v) = true → bytes v' = bytes v) ∧
      (KeySet.iter m).items = [7, 3] ∧ (KeySet.iter n).items = [3, 7] ∧
      EntrySet.equal m n = true ∧ EntrySet.bytes m = EntrySet.bytes n ∧
      KeySet.equal m o = true ∧ KeySet.bytes m = KeySet.bytes o := by
  intro puts m n o
  have hvalues : ∀ v v' : String, (v' == v) = true → bytes v' = bytes v := fun v v' h => by
    rw [beq_iff_eq.1 h]
  obtain ⟨hkeys, hentries⟩ := views_digest m n o
  have hequal : EntrySet.equal m n = true := by decide
  have hequal' : KeySet.equal m o = true := by decide
  exact ⟨hvalues, by decide, by decide, hequal, (hentries hvalues).equal hequal, hequal',
    hkeys.equal hequal'⟩

end CowMap

end SharedCells
