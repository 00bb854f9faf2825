import SharedCells.Proofs.CowMap.InTurn

/-!
# Removing a value until there is none

A value stands for every entry that holds it, but a single removal drops one of these only. Done
again until it finds none, it finds as many as there are; done so for each of some values, it
leaves what one bulk removal leaves.

* `Drained` and `DrainedAll` are these repetitions, with how often something was found.
* `remove_entries` says what one removal does to the list of entries.
* `values_inTurn` is the result. Values need not be equal to themselves.
-/

namespace SharedCells.CowMap

open Store CopyOnWrite

variable {M K V : Type} [MapStore M K V] [BEq V]

/-! ## Repeated removals -/

/-- A value is removed until a removal finds none; the number counts those that found one. -/
inductive Drained (v : V) : CowMap M → Supply → Nat → CowMap M → Supply → Prop
  | ends {m : CowMap M} {s : Supply} : (Values.remove m s v).result = .ok false →
    Drained v m s 0 (Values.remove m s v).cell (Values.remove m s v).supply
  | again {m m' : CowMap M} {s s' : Supply} {n : Nat} : (Values.remove m s v).result = .ok true →
    Drained v (Values.remove m s v).cell (Values.remove m s v).supply n m' s' →
      Drained v m s (n + 1) m' s'

/-- This is done with each value of a list, one after another. -/
inductive DrainedAll : List V → CowMap M → Supply → List Nat → CowMap M → Supply → Prop
  | nil (m : CowMap M) (s : Supply) : DrainedAll [] m s [] m s
  | cons {v : V} {vs : List V} {m m₁ m' : CowMap M} {s s₁ s' : Supply} {n : Nat} {ns : List Nat} :
    Drained v m s n m₁ s₁ → DrainedAll vs m₁ s₁ ns m' s' →
      DrainedAll (v :: vs) m s (n :: ns) m' s'

def holding (v : V) (e : K × V) : Bool := e.2 == v

/-- How many entries hold each value of a list, when the values before it are gone. -/
def tallies (es : List (K × V)) : List V → List Nat
  | [] => []
  | v :: vs => es.countP (holding v) :: tallies (es.filter fun e => !holding v e) vs

/-- A bulk removal of values agrees with repeated single ones, which end. -/
structure ValuesInTurn (m : CowMap M) (s : Supply) : Prop where
  /-- Each value is found as often as it is held. -/
  ends : ∀ vs, ∃ m' s', DrainedAll vs m s (tallies m.entries vs) m' s'
  agrees : ∀ vs ns m' s', DrainedAll vs m s ns m' s' → ns = tallies m.entries vs ∧
    (Values.removeAll m s vs).result = .ok (ns.any (· != 0)) ∧
      MapStore.SameContent (Values.removeAll m s vs).cell.contents m'.contents
  unordered : ∀ vs vs' : List V, (∀ v, v ∈ vs ↔ v ∈ vs') →
    (Values.removeAll m s vs).result = (Values.removeAll m s vs').result ∧
      MapStore.SameContent (Values.removeAll m s vs).cell.contents
        (Values.removeAll m s vs').cell.contents

theorem tallies_perm {es es' : List (K × V)} (h : es.Perm es') (vs : List V) :
    tallies es vs = tallies es' vs := by
  induction vs generalizing es es' with
  | nil => rfl
  | cons v vs ih => rw [tallies, tallies, h.countP_eq, ih (h.filter _)]

/-! ## One removal -/

variable [DecidableEq K] {before : K → K → Prop} [laws : LawfulMapStore M before] {m m' : CowMap M}
  {s s' : Supply} {v : V} {vs : List V} {n : Nat} {ns : List Nat}

include laws

/-- A removal finds an entry that holds the value and takes it out, or there is none. -/
theorem remove_entries (hm : m.copier.Faithful Alike) (s : Supply) (v : V) :
    let w := Values.remove m s v
    w.cell.copier = m.copier ∧
      ((w.result = .ok true ∧ ∃ e : K × V, holding v e = true ∧
          m.entries.Perm (e :: CowMap.entries w.cell)) ∨
        (w.result = .ok false ∧ (∀ e ∈ m.entries, ¬holding v e = true) ∧
          m.entries.Perm (CowMap.entries w.cell))) := by
  intro w
  obtain ⟨⟨⟨b, hb, hflag⟩, hdiscards⟩, -, hcopier⟩ := values_remove_realizes hm s v
  obtain ⟨b', hresult, hb'⟩ := exists_ok_of_writing hb nofun
  cases hb'
  refine ⟨hcopier, ?_⟩
  rcases hdiscards with ⟨k, x, hheld, hfits, -, hplain⟩ | ⟨hnone, hplain⟩
  · have hflag' : b = true := by
      rw [hflag, hplain, Plain.loses_remove_iff, hheld]
      rfl
    have hlists : (m.plain.remove k).Lists before (CowMap.entries w.cell) :=
      hplain ▸ lists_plain w.cell
    exact Or.inl ⟨hflag' ▸ hresult, (k, x), hfits, (lists_plain m).perm_cons_remove hheld hlists⟩
  · have hflag' : b = false := by
      rw [← Bool.not_eq_true, hflag, hplain]
      exact Plain.not_loses_self _
    have hlists : m.plain.Lists before (CowMap.entries w.cell) := hplain ▸ lists_plain w.cell
    refine Or.inr ⟨hflag' ▸ hresult, fun e he => ?_, (lists_plain m).perm hlists⟩
    exact hnone e.1 e.2 ((lists_plain m).mem_iff.1 he)

/-! ## Repetition of one removal -/

/-- It ends, and finds the value as often as it is held. -/
theorem exists_drained (hm : m.copier.Faithful Alike) (s : Supply) (v : V) :
    ∃ m' s', Drained v m s (m.entries.countP (holding v)) m' s' := by
  -- Each removal that finds the value leaves it once less.
  induction hn : m.entries.countP (holding v) generalizing m s with
  | zero =>
    obtain ⟨-, ⟨-, e, he, hperm⟩ | ⟨hresult, -, -⟩⟩ := remove_entries hm s v
    · rw [hperm.countP_eq, List.countP_cons_of_pos he] at hn
      cases hn
    · exact ⟨_, _, .ends hresult⟩
  | succ n ih =>
    obtain ⟨hcopier, ⟨hresult, e, he, hperm⟩ | ⟨-, hnone, -⟩⟩ := remove_entries hm s v
    · rw [hperm.countP_eq, List.countP_cons_of_pos he] at hn
      obtain ⟨m', s', hdrained⟩ := ih (hcopier ▸ hm) _ (Nat.succ.inj hn)
      exact ⟨m', s', .again hresult hdrained⟩
    · rw [List.countP_eq_zero.2 hnone] at hn
      cases hn

/-- However it ends: it found the value as often as it is held, and left the other entries. -/
theorem Drained.entries (h : Drained v m s n m' s') (hm : m.copier.Faithful Alike) :
    n = m.entries.countP (holding v) ∧
      m'.entries.Perm (m.entries.filter fun e => !holding v e) ∧ m'.copier = m.copier := by
  induction h with
  | @ends m s hend =>
    obtain ⟨hcopier, ⟨hresult, -⟩ | ⟨-, hnone, hperm⟩⟩ := remove_entries hm s v
    · rw [hend] at hresult
      cases hresult
    · refine ⟨(List.countP_eq_zero.2 hnone).symm, ?_, hcopier⟩
      rw [List.filter_eq_self.2 fun e he => by simpa using hnone e he]
      exact hperm.symm
  | @again m m' s s' n hfound _ ih =>
    obtain ⟨hcopier, ⟨-, e, he, hperm⟩ | ⟨hresult, -⟩⟩ := remove_entries hm s v
    · obtain ⟨hn, hleft, hcopier'⟩ := ih (hcopier ▸ hm)
      refine ⟨?_, hleft.trans ?_, hcopier'.trans hcopier⟩
      · rw [hperm.countP_eq, List.countP_cons_of_pos he, hn]
      · rw [← List.filter_cons_of_neg (a := e) (by simp [he])]
        exact (hperm.filter _).symm
    · rw [hfound] at hresult
      cases hresult

/-- It drops all entries that hold the value. -/
theorem Drained.drops (h : Drained v m s n m' s') (hm : m.copier.Faithful Alike) :
    Drops held (· != 0) {e : K × V | holding v e} m ⟨.ok n, m', s'⟩ := by
  obtain ⟨hn, hleft, hcopier⟩ := h.entries hm
  have hmem : ∀ (m : CowMap M) (e : K × V), e ∈ m.entries ↔ e ∈ held m.contents := fun m e =>
    (lists_plain m).mem_iff
  refine ⟨Set.ext fun e => ?_, ⟨n, rfl, ?_⟩, hcopier⟩
  · rw [← hmem m', hleft.mem_iff, List.mem_filter, hmem]
    simp
  · rw [bne_iff_ne, ← Nat.pos_iff_ne_zero, hn, List.countP_pos_iff]
    exact exists_congr fun e => and_congr_left fun _ => hmem m e

/-! ## Repetition for each value -/

theorem exists_drainedAll (hm : m.copier.Faithful Alike) (s : Supply) (vs : List V) :
    ∃ m' s', DrainedAll vs m s (tallies m.entries vs) m' s' := by
  induction vs generalizing m s with
  | nil => exact ⟨m, s, .nil m s⟩
  | cons v vs ih =>
    obtain ⟨m₁, s₁, hfirst⟩ := exists_drained hm s v
    obtain ⟨-, hleft, hcopier⟩ := hfirst.entries hm
    obtain ⟨m', s', hrest⟩ := ih (m := m₁) (hcopier ▸ hm) s₁
    rw [tallies_perm hleft] at hrest
    exact ⟨m', s', .cons hfirst hrest⟩

theorem DrainedAll.eq_tallies (h : DrainedAll vs m s ns m' s') (hm : m.copier.Faithful Alike) :
    ns = tallies m.entries vs := by
  induction h with
  | nil m s => rfl
  | cons hfirst _ ih =>
    obtain ⟨hn, hleft, hcopier⟩ := hfirst.entries hm
    rw [tallies, ← tallies_perm hleft, ← hn, ih (hcopier ▸ hm)]

theorem DrainedAll.drops (h : DrainedAll vs m s ns m' s') (hm : m.copier.Faithful Alike) :
    Drops held (fun ns => ns.any (· != 0)) (meant (fun v => {e : K × V | holding v e}) vs) m
      ⟨.ok ns, m', s'⟩ := by
  induction h with
  | nil m s => exact drops_nothing (Set.eq_empty_iff_forall_notMem.2 (by simp [meant])) s rfl
  | cons hfirst _ ih =>
    obtain ⟨-, -, hcopier⟩ := hfirst.entries hm
    rw [meant_cons]
    exact (hfirst.drops hm).cons rfl (ih (hcopier ▸ hm))

theorem values_inTurn (hm : m.copier.Faithful Alike)
    (hsymm : ∀ v v' : V, (v == v') = (v' == v)) (s : Supply) : ValuesInTurn m s := by
  have hbulk : ∀ vs, Drops held id (meant (fun v => {e : K × V | holding v e}) vs) m
      (Values.removeAll m s vs) := fun vs =>
    drops_of_removeAll valueFacet (fun e v => iff_of_eq (congrArg (· = true) (hsymm v e.2)))
      (onValues_realizes hm s (.removeAll vs))
  refine ⟨exists_drainedAll hm s, fun vs ns m' s' h => ?_,
    fun _ _ => unordered_of_drops sameContent_of_held hbulk⟩
  obtain ⟨ns', hns, hresult, hsame⟩ := (hbulk vs).comesTo sameContent_of_held (h.drops hm)
  cases hns
  exact ⟨h.eq_tallies hm, hresult, hsame⟩

end SharedCells.CowMap
