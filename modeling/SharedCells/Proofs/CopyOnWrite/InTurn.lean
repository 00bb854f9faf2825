import Mathlib.Order.BooleanAlgebra.Set
import SharedCells.Proofs.CopyOnWrite.Writes

/-!
# One write against many

A bulk change is one write; the same change may be made by single writes, one after another.

* `inTurn` makes a write with each item of a list, and `ComesTo` compares one write with that.
* `Drops` says of a write which items of the content it drops, and that it tells whether there
  were any. It determines what the write leaves and tells.
* `drops_inTurn`: writes that drop, made in turn, drop together what each of them drops.
* `inTurn_of_drops` is the result for any removal, in whatever order the items are listed.
-/

namespace SharedCells

namespace CopyOnWrite

variable {C E A R R' : Type}

/-! ## Writes in turn -/

/-- A write with each item of a list, one after another, and the results. A panic ends it. -/
def inTurn (single : CopyOnWrite C → Supply → A → Written C Panic R) (cell : CopyOnWrite C)
    (s : Supply) : List A → Written C Panic (List R)
  | [] => ⟨.ok [], cell, s⟩
  | a :: as =>
    let w := single cell s a
    match w.result with
    | .error p => ⟨.error p, w.cell, w.supply⟩
    | .ok r =>
      let rest := inTurn single w.cell w.supply as
      { rest with result := rest.result.map (r :: ·) }

theorem inTurn_cons {single : CopyOnWrite C → Supply → A → Written C Panic R}
    {cell : CopyOnWrite C} {s : Supply} {a : A} {r : R} (h : (single cell s a).result = .ok r)
    (as : List A) :
    inTurn single cell s (a :: as) =
      { inTurn single (single cell s a).cell (single cell s a).supply as with
        result := (inTurn single (single cell s a).cell (single cell s a).supply as).result.map
          (r :: ·) } := by
  simp only [inTurn, h]

/-- One write leaves the same as writes in turn, and tells whether one of them told so. -/
def ComesTo (same : C → C → Prop) (told : R → Bool) (bulk : Written C Panic Bool)
    (turns : Written C Panic (List R)) : Prop :=
  ∃ rs, turns.result = .ok rs ∧ bulk.result = .ok (rs.any told) ∧
    same bulk.cell.contents turns.cell.contents

/-- A removal of many items agrees with single removals in turn; neither the order in which the
items are listed nor how often matters to it. -/
structure RemovesInTurn (same : C → C → Prop) (told : R → Bool)
    (single : CopyOnWrite C → Supply → A → Written C Panic R)
    (bulk : CopyOnWrite C → Supply → List A → Written C Panic Bool) (cell : CopyOnWrite C)
    (s : Supply) : Prop where
  agrees : ∀ as, ComesTo same told (bulk cell s as) (inTurn single cell s as)
  unordered : ∀ as as' : List A, (∀ a, a ∈ as ↔ a ∈ as') →
    (bulk cell s as).result = (bulk cell s as').result ∧
      same (bulk cell s as).cell.contents (bulk cell s as').cell.contents

/-! ## Writes that drop -/

variable (content : C → Set E)

/-- A write drops some items, if they are there, and tells whether any were. -/
structure Drops (told : R → Bool) (gone : Set E) (cell : CopyOnWrite C)
    (w : Written C Panic R) : Prop where
  left : content w.cell.contents = content cell.contents \ gone
  result : ∃ r, w.result = .ok r ∧ (told r = true ↔ (content cell.contents ∩ gone).Nonempty)
  copier : w.cell.copier = cell.copier

/-- What is meant by some item of a list. -/
def meant (gone : A → Set E) (as : List A) : Set E := {e | ∃ a ∈ as, e ∈ gone a}

variable {content} {told : R → Bool} {told' : R' → Bool} {cell : CopyOnWrite C} {s : Supply}

theorem meant_cons (gone : A → Set E) (a : A) (as : List A) :
    meant gone (a :: as) = gone a ∪ meant gone as := by
  ext e
  simp [meant]

theorem meant_congr {gone : A → Set E} {as as' : List A} (h : ∀ a, a ∈ as ↔ a ∈ as') :
    meant gone as = meant gone as' := by
  ext e
  simp only [meant, h]

/-- A mutation that drops from whatever it is given, of a faithful copy. -/
theorem drops_write {same : C → C → Prop} (hcell : cell.copier.Faithful same)
    (hrefl : ∀ c, same c c) (hcontent : ∀ w c, same w c → content w = content c) (s : Supply)
    {gone : Set E} {mutation : C → Except Panic (Bool × C)}
    (h : ∀ w, ∃ b w', mutation w = .ok (b, w') ∧ content w' = content w \ gone ∧
      (b = true ↔ (content w ∩ gone).Nonempty)) :
    Drops content id gone cell (cell.write s mutation) := by
  obtain ⟨b, hb, ⟨hleft, hflag⟩, -, hcopier⟩ := write_of_faithful hcell hrefl s fun w hw => by
    obtain ⟨b, w', hmutation, hleft, hflag⟩ := h w
    rw [hcontent w _ hw] at hleft hflag
    exact ⟨b, w', hmutation, And.intro hleft hflag⟩
  exact ⟨hleft, ⟨b, hb, hflag⟩, hcopier⟩

/-- A write that has nothing to drop, and does nothing. -/
theorem drops_nothing {gone : Set E} (h : gone = ∅) (s : Supply) {r : R} (hr : told r = false) :
    Drops content told gone cell ⟨.ok r, cell, s⟩ := by
  subst h
  exact ⟨Set.sdiff_empty.symm, ⟨r, rfl, by simp [hr]⟩, rfl⟩

/-- A write that tells through its result. -/
theorem Drops.of_map {gone : Set E} {w : Written C Panic R}
    (h : Drops content id gone cell { w with result := w.result.map told }) :
    Drops content told gone cell w := by
  obtain ⟨hleft, ⟨b, hb, hflag⟩, hcopier⟩ := h
  obtain ⟨_ | r, cell', s'⟩ := w
  · cases hb
  · cases hb
    exact ⟨hleft, ⟨r, rfl, hflag⟩, hcopier⟩

/-- A write that drops and one that drops from what the first one left. -/
theorem Drops.cons {gone gone' : Set E} {w : Written C Panic R} {w' : Written C Panic (List R)}
    (h : Drops content told gone cell w) {r : R} (hr : w.result = .ok r)
    (h' : Drops content (fun rs => rs.any told) gone' w.cell w') :
    Drops content (fun rs => rs.any told) (gone ∪ gone') cell
      { w' with result := w'.result.map (r :: ·) } := by
  obtain ⟨r₀, hr₀, hflag⟩ := h.result
  obtain ⟨rs, hrs, hflags⟩ := h'.result
  have hsame : r = r₀ := Except.ok.inj (hr.symm.trans hr₀)
  subst hsame
  refine ⟨?_, ⟨r :: rs, by rw [hrs]; rfl, ?_⟩, h'.copier.trans h.copier⟩
  · rw [h'.left, h.left, Set.sdiff_sdiff]
  · rw [List.any_cons, Bool.or_eq_true, hflag, hflags, h.left]
    -- What the second write finds was there before, and what it misses the first one dropped.
    constructor
    · rintro (⟨e, he, hgone⟩ | ⟨e, ⟨he, -⟩, hgone⟩)
      · exact ⟨e, he, Or.inl hgone⟩
      · exact ⟨e, he, Or.inr hgone⟩
    · rintro ⟨e, he, hgone⟩
      by_cases hfirst : e ∈ gone
      · exact Or.inl ⟨e, he, hfirst⟩
      · exact Or.inr ⟨e, ⟨he, hfirst⟩, hgone.resolve_left hfirst⟩

variable {usable : Copier C → Prop} {single : CopyOnWrite C → Supply → A → Written C Panic R}
  {gone : A → Set E}

/-- Writes in turn drop together what each of them drops. -/
theorem drops_inTurn
    (hsingle : ∀ cell s a, usable cell.copier → Drops content told (gone a) cell (single cell s a))
    (hcell : usable cell.copier) (s : Supply) (as : List A) :
    Drops content (fun rs => rs.any told) (meant gone as) cell (inTurn single cell s as) := by
  induction as generalizing cell s with
  | nil => exact ⟨by simp [inTurn, meant], ⟨[], rfl, by simp [meant]⟩, rfl⟩
  | cons a as ih =>
    have hfirst := hsingle cell s a hcell
    obtain ⟨r, hr, -⟩ := hfirst.result
    rw [inTurn_cons hr, meant_cons]
    exact hfirst.cons hr (ih (hfirst.copier ▸ hcell) _)

/-- What a write drops determines what it leaves and what it tells. -/
theorem Drops.agree {gone : Set E} {w : Written C Panic R} {w' : Written C Panic R'}
    (h : Drops content told gone cell w) (h' : Drops content told' gone cell w') :
    ∃ r r', w.result = .ok r ∧ w'.result = .ok r' ∧ told r = told' r' ∧
      content w.cell.contents = content w'.cell.contents := by
  obtain ⟨r, hr, hflag⟩ := h.result
  obtain ⟨r', hr', hflag'⟩ := h'.result
  exact ⟨r, r', hr, hr', Bool.eq_iff_iff.2 (hflag.trans hflag'.symm), h.left.trans h'.left.symm⟩

theorem Drops.comesTo {same : C → C → Prop} (hsame : ∀ w w', content w = content w' → same w w')
    {gone : Set E} {bulk : Written C Panic Bool} {turns : Written C Panic (List R)}
    (h : Drops content id gone cell bulk)
    (h' : Drops content (fun rs => rs.any told) gone cell turns) :
    ComesTo same told bulk turns := by
  obtain ⟨flag, rs, hflag, hrs, heq, hleft⟩ := h.agree h'
  have hany : flag = rs.any told := heq
  exact ⟨rs, hrs, hany ▸ hflag, hsame _ _ hleft⟩

/-- What a bulk removal drops does not depend on the order of its items. -/
theorem unordered_of_drops {same : C → C → Prop}
    (hsame : ∀ w w', content w = content w' → same w w') {bulk : List A → Written C Panic Bool}
    (hbulk : ∀ as, Drops content id (meant gone as) cell (bulk as)) {as as' : List A}
    (h : ∀ a, a ∈ as ↔ a ∈ as') :
    (bulk as).result = (bulk as').result ∧
      same (bulk as).cell.contents (bulk as').cell.contents := by
  obtain ⟨flag, flag', hflag, hflag', heq, hleft⟩ :=
    (hbulk as).agree (meant_congr h ▸ hbulk as')
  exact ⟨by rw [hflag, hflag']; exact congrArg Except.ok heq, hsame _ _ hleft⟩

/-- Single removals that drop what their item means, and a bulk removal that drops what its items
mean. -/
theorem inTurn_of_drops (usable : Copier C → Prop) {same : C → C → Prop}
    (hsame : ∀ w w', content w = content w' → same w w') (hcell : usable cell.copier)
    (hsingle : ∀ cell s a, usable cell.copier → Drops content told (gone a) cell (single cell s a))
    {bulk : CopyOnWrite C → Supply → List A → Written C Panic Bool}
    (hbulk : ∀ as, Drops content id (meant gone as) cell (bulk cell s as)) :
    RemovesInTurn same told single bulk cell s :=
  ⟨fun as => (hbulk as).comesTo hsame (drops_inTurn hsingle hcell s as),
    fun _ _ => unordered_of_drops hsame hbulk⟩

end CopyOnWrite

end SharedCells
