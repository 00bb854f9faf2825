import SharedCells.Proofs.CopyOnWrite.InTurn
import SharedCells.Proofs.CowMap.PlainMap
import SharedCells.Proofs.CowMap.SubMap
import SharedCells.Proofs.Store.Rebuilt

/-!
# Bulk changes of a map against single ones

Over a lawful store and with a faithful copy function, removing many keys, pairs or keys of a part,
and putting many pairs, comes to the same as single changes one after another.

* `drops_of_remove` and `drops_of_removeAll` read off what the operations on views mean which
  entries they drop.
* `keys_inTurn`, `entries_inTurn`, `parts_inTurn` and `putAll_inTurn` are the results.
-/

namespace SharedCells.CowMap

open Store CopyOnWrite

variable {M K V α R : Type} [MapStore M K V]

/-- The entries of a store. -/
def held (w : M) : Set (K × V) := {e | MapStore.lookup w e.1 = some e.2}

omit [MapStore M K V] in
/-- A write that shows no panic gave back a result. -/
theorem exists_ok_of_writing {shown : R → Result K V} {w : Written M Panic R} {r : Result K V}
    (h : (Performed.writing shown w).result = r) (hr : ∀ p, r ≠ .panicked p) :
    ∃ a, w.result = .ok a ∧ shown a = r := by
  obtain ⟨p | a, cell, s⟩ := w
  · exact absurd h.symm (hr p)
  · exact ⟨a, rfl, h⟩

theorem loses_iff_of_held {w w' : M} {gone : Set (K × V)} (h : held w' = held w \ gone) :
    Plain.Loses (MapStore.lookup w) (MapStore.lookup w') ↔ (held w ∩ gone).Nonempty := by
  have hleft : ∀ k v, MapStore.lookup w' k = some v ↔
      MapStore.lookup w k = some v ∧ (k, v) ∉ gone := fun k v =>
    iff_of_eq (congrArg ((k, v) ∈ ·) h)
  constructor
  · rintro ⟨k, hk, hk'⟩
    obtain ⟨v, hv⟩ := Option.ne_none_iff_exists'.1 hk
    refine ⟨(k, v), hv, ?_⟩
    by_contra hnot
    rw [(hleft k v).2 ⟨hv, hnot⟩] at hk'
    cases hk'
  · rintro ⟨⟨k, v⟩, hv, hgone⟩
    have hheld : MapStore.lookup w k = some v := hv
    refine ⟨k, by rw [hheld]; exact nofun, Option.eq_none_iff_forall_ne_some.2 fun v' hv' => ?_⟩
    obtain ⟨hheld', hnot⟩ := (hleft k v').1 hv'
    rw [hheld] at hheld'
    cases hheld'
    exact hnot hgone

variable [DecidableEq K] {before : K → K → Prop} [laws : LawfulMapStore M before]

include laws in
theorem sameContent_of_lookup {w w' : M} (h : MapStore.lookup w = MapStore.lookup w') :
    MapStore.SameContent w w' :=
  ⟨h, (LawfulMapStore.lists w).perm (h ▸ LawfulMapStore.lists w')⟩

include laws in
theorem sameContent_of_held (w w' : M) (h : held w = held w') : MapStore.SameContent w w' :=
  sameContent_of_lookup (funext fun k => Option.ext fun v => iff_of_eq (congrArg ((k, v) ∈ ·) h))

/-! ## What the operations on views drop -/

variable {m : CowMap M} {facet : Facet K V α}

omit [DecidableEq K] laws in
theorem drops_of_held {w : Written M Panic Bool} {gone : Set (K × V)}
    (hleft : held w.cell.contents = held m.contents \ gone)
    (hflags : Flags m.plain (Performed.writing .flag w : Performed M K V).result (plain w.cell))
    (hcopier : w.cell.copier = m.copier) : Drops held id gone m w := by
  obtain ⟨b, hb, hflag⟩ := hflags
  obtain ⟨b', hresult, hb'⟩ := exists_ok_of_writing hb nofun
  cases hb'
  exact ⟨hleft, ⟨b, hresult, hflag.trans (loses_iff_of_held hleft)⟩, hcopier⟩

omit laws in
/-- A removal of one item drops the entry that fits, where no two keys have entries that do. -/
theorem drops_of_remove {a : α} {w : Written M Panic Bool}
    (hone : ∀ e e', facet.fits e a → facet.fits e' a → e.1 = e'.1)
    (h : Realizes (fun m r m' => (ViewOp.remove a).Means facet before m r m') true m
      (.writing .flag w)) :
    Drops held id {e | facet.fits e a} m w := by
  obtain ⟨⟨hflags, hdiscards⟩, -, hcopier⟩ := h
  refine drops_of_held (Set.ext fun e => ?_) hflags hcopier
  rcases hdiscards with ⟨k, v, hheld, hfits, -, hplain⟩ | ⟨hnone, hplain⟩
  · have hkey : m.plain e.1 = some e.2 → (e.1 = k ↔ facet.fits e a) := by
      intro he
      refine ⟨fun hk => ?_, fun he' => hone e (k, v) he' hfits⟩
      have hv : v = e.2 := Option.some.inj (hheld.symm.trans (hk ▸ he))
      rw [← hk, hv] at hfits
      exact hfits
    have hleft : plain w.cell e.1 = some e.2 ↔ e.1 ≠ k ∧ m.plain e.1 = some e.2 := by
      rw [show plain w.cell = m.plain.remove k from hplain, Plain.remove]
      by_cases hk : e.1 = k <;> simp [hk]
    refine hleft.trans (and_comm.trans (and_congr_right fun he => not_congr (hkey he)))
  · have hsame : plain w.cell = m.plain := hplain
    refine (iff_of_eq (congrArg (· e.1 = some e.2) hsame)).trans ?_
    exact (and_iff_left_of_imp fun he => hnone e.1 e.2 he).symm

omit laws in
/-- A removal of many items drops the entries that one of them covers. -/
theorem drops_of_removeAll (facet : Facet K V α) {as : List α} {w : Written M Panic Bool}
    (hcovers : ∀ e a, facet.covers a e ↔ facet.fits e a)
    (h : Realizes (fun m r m' => (ViewOp.removeAll as).Means facet before m r m') true m
      (.writing .flag w)) :
    Drops held id (meant (fun a => {e | facet.fits e a}) as) m w := by
  obtain ⟨⟨hflags, hleft⟩, -, hcopier⟩ := h
  refine drops_of_held (Set.ext fun e => ?_) hflags hcopier
  refine (hleft e.1 e.2).trans (and_congr_right fun _ => ?_)
  simp [meant, hcovers]

/-! ## Removals -/

section Removals

variable (hm : m.copier.Faithful Alike) (s : Supply)

include laws hm

theorem drops_of_keyRemove (k : K) :
    Drops held id {e : K × V | keyFacet.fits e k} m (KeySet.remove m s k) := by
  have hone : ∀ e e' : K × V, keyFacet.fits e k → keyFacet.fits e' k → e.1 = e'.1 :=
    fun e e' h h' => Eq.trans h (Eq.symm h')
  exact drops_of_remove hone (keySet_remove_realizes hm s k)

theorem drops_of_keyRemoveAll (ks : List K) :
    Drops held id (meant (fun k => {e : K × V | keyFacet.fits e k}) ks) m
      (KeySet.removeAll m s (.ofList ks)) :=
  drops_of_removeAll keyFacet (fun _ _ => eq_comm) (keySet_removeAll_realizes hm s ks)

theorem keys_inTurn :
    RemovesInTurn MapStore.SameContent id KeySet.remove
      (fun m s ks => KeySet.removeAll m s (.ofList ks)) m s :=
  inTurn_of_drops (Copier.Faithful Alike) sameContent_of_held hm
    (fun _ s k hm => drops_of_keyRemove hm s k) (drops_of_keyRemoveAll hm s)

/-- A pair is looked up before it is removed, and many are looked for in all entries. -/
theorem entries_inTurn [BEq V] (hsymm : ∀ v v' : V, (v == v') = (v' == v)) :
    RemovesInTurn MapStore.SameContent id (fun m s (e : K × V) => EntrySet.remove m s e.1 e.2)
      EntrySet.removeAll m s := by
  have hone : ∀ (a e e' : K × V), entryFacet.fits e a → entryFacet.fits e' a → e.1 = e'.1 :=
    fun a e e' h h' => h.1.trans h'.1.symm
  have hcovers : ∀ e a : K × V, entryFacet.covers a e ↔ entryFacet.fits e a := fun e a =>
    and_congr eq_comm (by rw [hsymm])
  refine inTurn_of_drops (Copier.Faithful Alike) sameContent_of_held hm
    (fun m s e hm => drops_of_remove (hone e) (entrySet_remove_realizes hm s e)) fun es => ?_
  exact drops_of_removeAll entryFacet hcovers (onEntries_realizes hm s (.removeAll es))

end Removals

section Parts

variable {L W : Type} [LE L] [LT L] [DecidableLE L] [DecidableLT L] [Std.IsLinearOrder L]
  [Std.LawfulOrderLT L] [DecidableEq L] (r : KeyRange L) {p : CowMap (SortedMap L W)}
  (hp : p.copier.Faithful Alike) (s : Supply)

include hp

theorem drops_of_partRemove (k : L) :
    Drops held Option.isSome {e | e.1 = k ∧ r.contains e.1 = true} p (SubMap.remove r p s k) := by
  cases hk : r.contains k with
  | false =>
    rw [SubMap.remove, if_neg (by simp [hk])]
    refine drops_nothing (Set.eq_empty_iff_forall_notMem.2 ?_) s rfl
    rintro e ⟨rfl, he⟩
    rw [hk] at he
    cases he
  | true =>
    have hkey : {e : L × W | e.1 = k ∧ r.contains e.1 = true} = {e | keyFacet.fits e k} := by
      refine Set.ext fun e => and_iff_left_of_imp fun he => ?_
      rw [he, hk]
    rw [SubMap.remove, if_pos hk, hkey]
    exact .of_map (drops_of_keyRemove hp s k)

theorem drops_of_partRemoveAll (ks : List L) :
    Drops held id (meant (fun k => {e | e.1 = k ∧ r.contains e.1 = true}) ks) p
      (SubMap.removeAll r p s (.ofList ks)) := by
  by_cases hin : ∃ k ∈ ks, r.contains k = true
  · have hmeant : meant (fun k => {e : L × W | e.1 = k ∧ r.contains e.1 = true}) ks =
        meant (fun k => {e | keyFacet.fits e k}) (ks.filter r.contains) := by
      ext e
      simp only [meant, keyFacet, List.mem_filter, Set.mem_ofPred_eq]
      constructor
      · rintro ⟨k, hk, rfl, hr⟩
        exact ⟨e.1, ⟨hk, hr⟩, rfl⟩
      · rintro ⟨k, ⟨hk, hr⟩, rfl⟩
        exact ⟨e.1, hk, rfl, hr⟩
    rw [SubMap.removeAll_inside r p s rfl hin, hmeant]
    exact drops_of_keyRemoveAll hp s (ks.filter r.contains)
  · have hout : ∀ k ∈ ks, r.contains k = false := fun k hk =>
      Bool.eq_false_iff.2 fun hr => hin ⟨k, hk, hr⟩
    rw [SubMap.removeAll_outside r p s rfl hout]
    refine drops_nothing (Set.eq_empty_iff_forall_notMem.2 ?_) s rfl
    rintro e ⟨k, hk, rfl, hr⟩
    exact hin ⟨e.1, hk, hr⟩

/-- A part passes over the keys outside its range, one by one and all at once. -/
theorem parts_inTurn :
    RemovesInTurn MapStore.SameContent Option.isSome (SubMap.remove r)
      (fun p s ks => SubMap.removeAll r p s (.ofList ks)) p s :=
  inTurn_of_drops (Copier.Faithful Alike) sameContent_of_held hp
    (fun _ s k hp => drops_of_partRemove r hp s k) (drops_of_partRemoveAll r hp s)

end Parts

/-! ## Putting -/

section Putting

def putPair (m : CowMap M) (s : Supply) (e : K × V) : Written M Panic (Option V) :=
  m.put s e.1 e.2

/-- Putting many pairs leaves what putting them one after another leaves. -/
def PutsInTurn (m : CowMap M) (s : Supply) : Prop :=
  ∀ es : List (K × V), ∃ rs, (inTurn putPair m s es).result = .ok rs ∧
    (m.putAll s (.ofList es)).result = .ok () ∧
      MapStore.SameContent (m.putAll s (.ofList es)).cell.contents
        (inTurn putPair m s es).cell.contents

include laws

theorem inTurn_putPair (hm : m.copier.Faithful Alike) (s : Supply) (es : List (K × V)) :
    (∃ rs, (inTurn putPair m s es).result = .ok rs) ∧
      plain (inTurn putPair m s es).cell = m.plain.putAll es := by
  induction es generalizing m s with
  | nil => exact ⟨⟨[], rfl⟩, rfl⟩
  | cons e es ih =>
    obtain ⟨⟨hresult, hplain⟩, -, hcopier⟩ := put_realizes hm s e.1 e.2
    obtain ⟨r, hr, -⟩ := exists_ok_of_writing hresult nofun
    have hput : plain (putPair m s e).cell = m.plain.put e.1 e.2 := hplain
    have hcopier' : (putPair m s e).cell.copier = m.copier := hcopier
    obtain ⟨⟨rs, hrs⟩, hrest⟩ := ih (hcopier' ▸ hm) (putPair m s e).supply
    have hcons := inTurn_cons (show (putPair m s e).result = .ok r from hr) es
    refine ⟨⟨r :: rs, by rw [hcons, hrs]; rfl⟩, ?_⟩
    rw [hcons, hrest, hput]
    rfl

theorem putAll_inTurn (hm : m.copier.Faithful Alike) (s : Supply) : PutsInTurn m s := by
  intro es
  obtain ⟨⟨hresult, hplain⟩, -, -⟩ := putAll_realizes hm s es
  obtain ⟨_, hr, -⟩ := exists_ok_of_writing hresult nofun
  obtain ⟨⟨rs, hrs⟩, hturns⟩ := inTurn_putPair hm s es
  refine ⟨rs, hrs, hr, sameContent_of_lookup ?_⟩
  exact Eq.trans hplain hturns.symm

end Putting

end SharedCells.CowMap
