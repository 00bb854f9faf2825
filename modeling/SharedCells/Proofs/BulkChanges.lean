import SharedCells.Proofs.CowMap.Drained
import SharedCells.Proofs.CowSet

/-!
# Bulk changes against single ones

A bulk change of a map, of a part of a sorted map or of a set is one write. Over a lawful store and
with a faithful copy function it leaves what single changes leave, one after another, and tells
whether one of them had an effect; a bulk removal does so in whatever order its items are listed.

* `set_inTurn` is this for sets. An insertion drops its item from what is missing.
* `bulk_inTurn` is the result for all of them.
-/

namespace SharedCells

open Store CopyOnWrite

namespace CowSet

variable {S α : Type} [SetStore S α]

def members (w : S) : Set α := {a | a ∈ SetStore.items w}

def missing (w : S) : Set α := {a | a ∉ SetStore.items w}

/-- A bulk insertion and a bulk removal agree with single ones. -/
structure SetInTurn (c : CowSet S) (s : Supply) : Prop where
  insertAll : ∀ as : List α, ComesTo SetStore.SameContent id (c.insertAll s (.ofList as))
    (inTurn CowSet.insert c s as)
  removeAll : RemovesInTurn SetStore.SameContent id CowSet.remove
    (fun c s as => CowSet.removeAll c s (.ofList as)) c s

theorem meant_singleton (as : List α) : meant (fun a => {a}) as = {a | a ∈ as} := by
  ext a
  simp [meant]

/-- What is listed has a first place in the list. -/
theorem exists_first_iff {p : α → Prop} {as : List α} :
    (∃ before a after, as = before ++ a :: after ∧ p a ∧ a ∉ before) ↔
      ({a | p a} ∩ {a | a ∈ as}).Nonempty := by
  constructor
  · rintro ⟨before, a, after, rfl, ha, -⟩
    exact ⟨a, ha, List.mem_append_right before List.mem_cons_self⟩
  · rintro ⟨a, ha, hmem⟩
    obtain ⟨before, after, has, hfirst⟩ := List.eq_append_cons_of_mem hmem
    exact ⟨before, a, after, has, ha, hfirst⟩

variable {alike : List α → List α → Prop} [laws : LawfulSetStore S alike]

include laws

theorem sameContent_of_members (w w' : S) (h : members w = members w') :
    SetStore.SameContent w w' := by
  have hmem : ∀ a, a ∈ SetStore.items w ↔ a ∈ SetStore.items w' := Set.ext_iff.1 h
  refine ⟨fun a => Bool.eq_iff_iff.2 ?_, ?_⟩
  · rw [LawfulSetStore.contains_iff, LawfulSetStore.contains_iff, hmem]
  · exact (List.perm_ext_iff_of_nodup (LawfulSetStore.nodup w) (LawfulSetStore.nodup w')).2 hmem

theorem sameContent_of_missing (w w' : S) (h : missing w = missing w') :
    SetStore.SameContent w w' :=
  sameContent_of_members w w' (compl_injective h)

theorem members_of_alike (w c : S) (h : Alike alike w c) : members w = members c :=
  Set.ext fun _ => (laws.perm_of_alike h).mem_iff

theorem missing_of_alike (w c : S) (h : Alike alike w c) : missing w = missing c :=
  congrArg compl (members_of_alike w c h)

variable {c : CowSet S} (hc : c.copier.Faithful (Alike alike)) (s : Supply)

include hc

theorem drops_of_remove (a : α) : Drops members id {a} c (CowSet.remove c s a) := by
  refine drops_write hc (fun c => laws.alike_refl _) members_of_alike s fun w =>
    ⟨_, _, rfl, Set.ext fun b => LawfulSetStore.mem_erase, ?_⟩
  rw [Set.inter_singleton_nonempty]
  exact LawfulSetStore.erase_there w a

theorem drops_of_removeAll (as : List α) :
    Drops members id (meant (fun a => {a}) as) c (CowSet.removeAll c s (.ofList as)) := by
  rw [meant_singleton]
  refine drops_write hc (fun c => laws.alike_refl _) members_of_alike s fun w => ?_
  obtain ⟨flag, hfold, hflag⟩ := foldl_flags SetStore.erase false w as
  refine ⟨flag, _, congrArg Except.ok hfold, Set.ext fun b => mem_each_erase, hflag.trans ?_⟩
  simp only [Bool.false_eq_true, false_or, LawfulSetStore.erase_there, mem_each_erase]
  exact exists_first_iff

/-- An insertion drops its item from what is missing. -/
theorem drops_of_insert (a : α) : Drops missing id {a} c (CowSet.insert c s a) := by
  refine drops_write hc (fun c => laws.alike_refl _) missing_of_alike s fun w =>
    ⟨_, _, rfl, Set.ext fun b => ?_, ?_⟩
  · exact (not_congr LawfulSetStore.mem_insert).trans (not_or.trans and_comm)
  · rw [Set.inter_singleton_nonempty]
    exact LawfulSetStore.insert_new w a

theorem drops_of_insertAll (as : List α) :
    Drops missing id (meant (fun a => {a}) as) c (CowSet.insertAll c s (.ofList as)) := by
  rw [meant_singleton]
  refine drops_write hc (fun c => laws.alike_refl _) missing_of_alike s fun w => ?_
  have hnew : ∀ before b, b ∉ SetStore.items (each SetStore.insert w before) ↔
      b ∉ SetStore.items w ∧ b ∉ before := fun before b =>
    (not_congr mem_each_insert).trans (not_or.trans and_comm)
  obtain ⟨flag, hfold, hflag⟩ := foldl_flags SetStore.insert false w as
  refine ⟨flag, _, congrArg Except.ok hfold, Set.ext fun b => hnew as b, hflag.trans ?_⟩
  simp only [Bool.false_eq_true, false_or, LawfulSetStore.insert_new, hnew]
  exact exists_first_iff

theorem set_inTurn : SetInTurn c s :=
  ⟨fun as => (drops_of_insertAll hc s as).comesTo sameContent_of_missing
      (drops_inTurn (fun _ s a hc => drops_of_insert hc s a) hc s as),
    inTurn_of_drops _ sameContent_of_members hc (fun _ s a hc => drops_of_remove hc s a)
      (drops_of_removeAll hc s)⟩

end CowSet

section Maps

variable {M K V : Type} [MapStore M K V] [BEq V]

/-- Bulk changes of a map and of its views agree with single ones. -/
structure CowMap.MapInTurn [DecidableEq K] (m : CowMap M) (s : Supply) : Prop where
  putAll : PutsInTurn m s
  keys : RemovesInTurn MapStore.SameContent id KeySet.remove
    (fun m s ks => KeySet.removeAll m s (.ofList ks)) m s
  entries : RemovesInTurn MapStore.SameContent id
    (fun m s (e : K × V) => EntrySet.remove m s e.1 e.2) EntrySet.removeAll m s
  /-- A value is removed again and again, until a removal finds none. -/
  values : ValuesInTurn m s

/-- Every bulk change of a map over a lawful store, of a part of a sorted map and of a set over a
lawful store agrees with single changes one after another. Values need not be equal to
themselves. -/
theorem bulk_inTurn [DecidableEq K] {before : K → K → Prop} [LawfulMapStore M before]
    {m : CowMap M} (hm : m.copier.Faithful CowMap.Alike)
    (hsymm : ∀ v v' : V, (v == v') = (v' == v))
    {L W : Type} [LE L] [LT L] [DecidableLE L] [DecidableLT L] [Std.IsLinearOrder L]
    [Std.LawfulOrderLT L] [DecidableEq L] (r : KeyRange L) {p : CowMap (SortedMap L W)}
    (hp : p.copier.Faithful CowMap.Alike)
    {S α : Type} [SetStore S α] {alike : List α → List α → Prop} [LawfulSetStore S alike]
    {c : CowSet S} (hc : c.copier.Faithful (CowSet.Alike alike)) (s : Supply) :
    CowMap.MapInTurn m s ∧
      RemovesInTurn MapStore.SameContent Option.isSome (SubMap.remove r)
        (fun p s ks => SubMap.removeAll r p s (.ofList ks)) p s ∧
      CowSet.SetInTurn c s :=
  ⟨⟨CowMap.putAll_inTurn hm s, CowMap.keys_inTurn hm s, CowMap.entries_inTurn hm s hsymm,
      CowMap.values_inTurn hm hsymm s⟩,
    CowMap.parts_inTurn r hp s, CowSet.set_inTurn hc s⟩

end Maps

/-- Values one of which is not equal to itself, a part below 3, and a set with a copy function. -/
theorem bulk_inTurn_examples :
    let _ : BEq (Option Nat) := ⟨fun a b => a.isSome && decide (a = b)⟩
    let m : CowMap (SortedMap Nat (Option Nat)) :=
      ⟨⟨0, MapStore.ofList [(1, some 7), (2, none), (3, some 7), (4, some 8)]⟩, .plain, 0⟩
    let r : KeyRange Nat := ⟨.unbounded, .excluded 3⟩
    let c : CowSet (SortedSet Nat) := ⟨⟨0, SetStore.ofList [2, 5]⟩, .custom fun _ c => .ok c, 0⟩
    m.copier.Faithful CowMap.Alike ∧ (∀ v v' : Option Nat, (v == v') = (v' == v)) ∧
      c.copier.Faithful (CowSet.Alike Eq) ∧
      CowMap.tallies m.entries [some 7, none, some 7, some 8] = [2, 0, 0, 1] ∧
      (inTurn KeySet.remove m {} [4, 9, 4]).result.toOption = some [true, false, false] ∧
      CowMap.entries (SubMap.removeAll r m {} (.ofList [3, 2, 2])).cell =
        [(1, some 7), (3, some 7), (4, some 8)] ∧
      (inTurn CowSet.insert c {} [5, 1, 1]).result.toOption = some [false, true, false] ∧
      CowMap.MapInTurn m {} ∧
      RemovesInTurn MapStore.SameContent Option.isSome (SubMap.remove r)
        (fun p s ks => SubMap.removeAll r p s (.ofList ks)) m {} ∧
      CowSet.SetInTurn c {} := by
  intro _ m r c
  have hm : m.copier.Faithful CowMap.Alike := trivial
  have hsymm : ∀ v v' : Option Nat, (v == v') = (v' == v) := by
    rintro (_ | a) (_ | b)
    · rfl
    · rfl
    · rfl
    · exact decide_eq_decide.2 eq_comm
  have hc : c.copier.Faithful (CowSet.Alike Eq) := fun _ c => ⟨c, rfl, rfl⟩
  exact ⟨hm, hsymm, hc, rfl, rfl, rfl, rfl, bulk_inTurn hm hsymm r hm hc {}⟩

end SharedCells
