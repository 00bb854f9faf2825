import SharedCells.Proofs.Store.Lawful

/-!
# Lawful sets

A store of items is lawful when each of its operations does to membership what it does in a set,
and when its list has every item once. `LawfulSetStore` states this together with what the order
of the list is worth: lists that are `alike` stand for the same set.

* A `SortedSet` and a `ListedSet` promise their order, so that only equal lists are alike. An
  `UnorderedSet` promises none.
* `each` is a store after a change made with every item of a list in turn, and `foldl_flags` what
  the flags of these changes come to.
-/

namespace SharedCells.Store

/-- A store that treats membership as a set does, and whose list shows every item once. Stores
whose lists are alike count as the same. -/
class LawfulSetStore (S : Type) {α : outParam Type} [SetStore S α]
    (alike : outParam (List α → List α → Prop)) : Prop where
  alike_refl (as : List α) : alike as as
  /-- Lists that are alike show the same items. -/
  perm_of_alike {as bs : List α} : alike as bs → as.Perm bs
  nodup (s : S) : (SetStore.items s).Nodup
  /-- The size counts the items. -/
  size_eq (s : S) : SetStore.size s = (SetStore.items s).length
  contains_iff (s : S) (a : α) : SetStore.contains s a = true ↔ a ∈ SetStore.items s
  items_empty : SetStore.items (SetStore.empty : S) = []
  mem_insert {s : S} {a b : α} :
    b ∈ SetStore.items (SetStore.insert s a).1 ↔ b = a ∨ b ∈ SetStore.items s
  /-- An insertion tells whether the item is new. -/
  insert_new (s : S) (a : α) : (SetStore.insert s a).2 = true ↔ a ∉ SetStore.items s
  mem_erase {s : S} {a b : α} :
    b ∈ SetStore.items (SetStore.erase s a).1 ↔ b ∈ SetStore.items s ∧ b ≠ a
  /-- An erasure tells whether the item was there. -/
  erase_there (s : S) (a : α) : (SetStore.erase s a).2 = true ↔ a ∈ SetStore.items s
  items_clear (s : S) : SetStore.items (SetStore.clear s) = []
  /-- A predicate is asked about every item, and the store has what it keeps. -/
  retain_ok {σ : Type} {ask : σ → α → Except Panic (Bool × σ)} {t u : σ} {s : S} {kept : List α}
    (h : Asks ask t (SetStore.items s) (.ok (kept, u))) :
    ∃ s', SetStore.retain ask t s = .ok (s', u) ∧ alike (SetStore.items s') kept
  /-- A predicate that panics leaves nothing. -/
  retain_error {σ : Type} {ask : σ → α → Except Panic (Bool × σ)} {t : σ} {s : S} {p : Panic}
    (h : Asks ask t (SetStore.items s) (.error p)) : SetStore.retain ask t s = .error p

/-! ## A change with every item of a list -/

section Each

variable {S α : Type}

/-- A store after a change made with every item of a list in turn. -/
def each (change : S → α → S × Bool) (s : S) (as : List α) : S :=
  as.foldl (fun s a => (change s a).1) s

/-- The flags of the single changes add up; a change is made whatever the flags before it. -/
theorem foldl_flags (change : S → α → S × Bool) (b : Bool) (s : S) (as : List α) :
    ∃ flag, as.foldl (fun (changed, s) a => ((change s a).2 || changed, (change s a).1)) (b, s) =
        (flag, each change s as) ∧
      (flag = true ↔ b = true ∨ ∃ before a after, as = before ++ a :: after ∧
        (change (each change s before) a).2 = true) := by
  induction as generalizing b s with
  | nil => exact ⟨b, rfl, by simp⟩
  | cons a as ih =>
    obtain ⟨flag, hfold, hflag⟩ := ih ((change s a).2 || b) (change s a).1
    refine ⟨flag, hfold, hflag.trans ?_⟩
    rw [Bool.or_eq_true, or_comm (b := b = true), or_assoc]
    refine or_congr_right ?_
    constructor
    · rintro (hfirst | ⟨before, a', after, rfl, hlater⟩)
      · exact ⟨[], a, as, rfl, hfirst⟩
      · exact ⟨a :: before, a', after, rfl, hlater⟩
    · rintro ⟨before, a', after, has, hsingle⟩
      cases before with
      | nil =>
        cases has
        exact Or.inl hsingle
      | cons a₀ before =>
        cases has
        exact Or.inr ⟨before, a', after, rfl, hsingle⟩

variable [SetStore S α] {alike : List α → List α → Prop} [laws : LawfulSetStore S alike]

include laws

theorem mem_each_insert {s : S} {as : List α} {b : α} :
    b ∈ SetStore.items (each SetStore.insert s as) ↔ b ∈ as ∨ b ∈ SetStore.items s := by
  induction as generalizing s with
  | nil => simp [each]
  | cons a as ih =>
    rw [each, List.foldl_cons, ← each, ih, LawfulSetStore.mem_insert, List.mem_cons, or_left_comm,
      or_assoc]

theorem mem_each_erase {s : S} {as : List α} {b : α} :
    b ∈ SetStore.items (each SetStore.erase s as) ↔ b ∈ SetStore.items s ∧ b ∉ as := by
  induction as generalizing s with
  | nil => simp [each]
  | cons a as ih =>
    rw [each, List.foldl_cons, ← each, ih, LawfulSetStore.mem_erase, List.mem_cons, not_or,
      and_assoc]

end Each

/-! ## The stores -/

variable {K : Type}

namespace SortedSet

variable [LT K]

theorem sifts_retain {σ : Type} (ask : σ → K → Except Panic (Bool × σ)) (t : σ)
    (s : SortedSet K) : Sifts items (SortedSet.retain ask t s) (sift ask t s.items) := by
  unfold SortedSet.retain
  split
  · rename_i p hsift
    exact hsift.symm
  · rename_i kept u hsift
    exact hsift.symm

variable [LE K] [Std.LawfulOrderLT K]

theorem nodup (s : SortedSet K) : s.items.Nodup := by
  have hkeys := s.ascending.nodup
  rwa [List.map_id] at hkeys

variable [Std.IsLinearOrder K] [DecidableLT K]

theorem contains_iff (s : SortedSet K) (k : K) : s.contains k = true ↔ k ∈ s.items := by
  rw [contains, Option.isSome_iff_exists]
  simp only [Ascending.find?_eq_some_iff s.ascending, id_eq]
  constructor
  · rintro ⟨k', hmem, rfl⟩
    exact hmem
  · intro hmem
    exact ⟨k, hmem, rfl⟩

theorem not_contains_iff (s : SortedSet K) (k : K) : (!s.contains k) = true ↔ k ∉ s.items := by
  rw [Bool.not_eq_true', Bool.eq_false_iff, ne_eq, contains_iff]

theorem mem_insert {s : SortedSet K} {a b : K} : b ∈ (s.insert a).items ↔ b = a ∨ b ∈ s.items := by
  refine (Ascending.mem_insert_iff s.ascending).trans ?_
  by_cases hb : b = a <;> simp [hb]

instance : LawfulSetStore (SortedSet K) Eq where
  alike_refl _ := rfl
  perm_of_alike h := .of_eq h
  nodup := nodup
  size_eq _ := rfl
  contains_iff := contains_iff
  items_empty := rfl
  mem_insert := mem_insert
  insert_new := not_contains_iff
  mem_erase {s _ _} := Ascending.mem_erase_iff s.ascending
  erase_there := contains_iff
  items_clear _ := rfl
  retain_ok {_ ask t _ s _} h := (s.sifts_retain ask t).ok h
  retain_error {_ ask t s _} h := (s.sifts_retain ask t).error h

end SortedSet

namespace ListedSet

theorem sifts_retain {σ : Type} (ask : σ → K → Except Panic (Bool × σ)) (t : σ)
    (s : ListedSet K) : Sifts items (ListedSet.retain ask t s) (sift ask t s.items) := by
  unfold ListedSet.retain
  split
  · rename_i p hsift
    exact hsift.symm
  · rename_i kept u hsift
    exact hsift.symm

theorem nodup (s : ListedSet K) : s.items.Nodup := by
  have hkeys := s.distinct
  rwa [Distinct.Keyed, List.map_id] at hkeys

variable [DecidableEq K]

theorem contains_iff (s : ListedSet K) (k : K) : s.contains k = true ↔ k ∈ s.items := by
  rw [contains, Option.isSome_iff_exists]
  simp only [Distinct.find?_eq_some_iff s.distinct, id_eq]
  constructor
  · rintro ⟨k', hmem, rfl⟩
    exact hmem
  · intro hmem
    exact ⟨k, hmem, rfl⟩

theorem not_contains_iff (s : ListedSet K) (k : K) : (!s.contains k) = true ↔ k ∉ s.items := by
  rw [Bool.not_eq_true', Bool.eq_false_iff, ne_eq, contains_iff]

theorem mem_insert {s : ListedSet K} {a b : K} : b ∈ (s.insert a).items ↔ b = a ∨ b ∈ s.items := by
  refine (Distinct.mem_insert_iff s.distinct).trans ?_
  by_cases hb : b = a <;> simp [hb]

instance : LawfulSetStore (ListedSet K) Eq where
  alike_refl _ := rfl
  perm_of_alike h := .of_eq h
  nodup := nodup
  size_eq _ := rfl
  contains_iff := contains_iff
  items_empty := rfl
  mem_insert := mem_insert
  insert_new := not_contains_iff
  mem_erase := Distinct.mem_erase_iff
  erase_there := contains_iff
  items_clear _ := rfl
  retain_ok {_ ask t _ s _} h := (s.sifts_retain ask t).ok h
  retain_error {_ ask t s _} h := (s.sifts_retain ask t).error h

end ListedSet

instance [DecidableEq K] : LawfulSetStore (UnorderedSet K) List.Perm where
  alike_refl := .refl
  perm_of_alike := id
  nodup s := s.toListedSet.nodup
  size_eq _ := rfl
  contains_iff s := s.toListedSet.contains_iff
  items_empty := rfl
  mem_insert := ListedSet.mem_insert
  insert_new s := s.toListedSet.not_contains_iff
  mem_erase := Distinct.mem_erase_iff
  erase_there s := s.toListedSet.contains_iff
  items_clear _ := rfl
  retain_ok {_ ask t _ s _} h := by
    obtain ⟨s', hs', rfl⟩ := (s.toListedSet.sifts_retain ask t).ok h
    refine ⟨⟨s'⟩, ?_, .refl _⟩
    show (s.toListedSet.retain ask t).map _ = _
    rw [hs']
    rfl
  retain_error {_ ask t s _} h := by
    show (s.toListedSet.retain ask t).map _ = _
    rw [(s.toListedSet.sifts_retain ask t).error h]
    rfl

end SharedCells.Store
