import SharedCells.CopyOnWrite.Basic

/-!
# One write of a cell

A write has three ends: the copy panics, the mutation fails, or the mutated copy is published.
The first two leave the cell as it was.

* `attempt_of_copy_error`, `attempt_of_error`, `attempt_of_ok`: the three ends, for every copy
  function and every mutation.
* `Commits` says what a write may come to, given what its mutation may come to, and
  `write_commits` that every write keeps to it.
* `write_of_faithful`: with a copy function that never panics and whose copies mean the same as
  what they were made of, a mutation that never fails is published exactly once.
-/

namespace SharedCells

variable {C ε R : Type}

/-- A copy function that never panics and whose copies mean the same as what was copied. -/
def Copier.Faithful (same : C → C → Prop) : Copier C → Prop
  | .plain => True
  | .custom copy => ∀ n c, ∃ c', copy n c = .ok c' ∧ same c' c

theorem Copier.Faithful.copy_eq {same : C → C → Prop} {copier : Copier C}
    (h : copier.Faithful same) (hrefl : ∀ c, same c c) (s : Supply) (c : C) :
    ∃ c' s', copier.copy s c = (.ok c', s') ∧ same c' c := by
  cases copier with
  | plain => exact ⟨c, s, rfl, hrefl c⟩
  | custom copy =>
    obtain ⟨c', hc', hsame⟩ := h (s.copies + 1) c
    exact ⟨c', _, by rw [Copier.copy, hc'], hsame⟩

namespace CopyOnWrite

variable {cell : CopyOnWrite C} {s s' : Supply} {raise : Panic → ε}
  {mutation : C → Except ε (R × C)}

@[simp] theorem version_publish (c : C) :
    (cell.publish s c).1.version = cell.version + 1 := rfl

theorem attempt_of_copy_error {p : Panic} (h : cell.copyCurrent s = (.error p, s')) :
    cell.attempt s raise mutation = ⟨.error (raise p), cell, s'⟩ := by
  simp only [attempt, h]

theorem attempt_of_error {w : C} {e : ε} (h : cell.copyCurrent s = (.ok w, s'))
    (hw : mutation w = .error e) :
    cell.attempt s raise mutation = ⟨.error e, cell, s'⟩ := by
  simp only [attempt, h, hw]

theorem attempt_of_ok {w w' : C} {r : R} (h : cell.copyCurrent s = (.ok w, s'))
    (hw : mutation w = .ok (r, w')) :
    cell.attempt s raise mutation =
      ⟨.ok r, (cell.publish s' w').1, (cell.publish s' w').2⟩ := by
  simp only [attempt, h, hw]

/-- What a write may come to. `Q` says what the mutation may make of a working copy. -/
inductive Commits (cell : CopyOnWrite C) (s : Supply)
    (Q : C → Except Panic (R × C) → Prop) : Written C Panic R → Prop
  /-- The copy panics: nothing is published. -/
  | copyPanics {p : Panic} {s' : Supply} :
    cell.copyCurrent s = (.error p, s') → Commits cell s Q ⟨.error p, cell, s'⟩
  /-- The mutation panics: nothing is published. -/
  | panics {w : C} {p : Panic} {s' : Supply} :
    cell.copyCurrent s = (.ok w, s') → Q w (.error p) → Commits cell s Q ⟨.error p, cell, s'⟩
  /-- The mutated copy is published once: the cell then holds it in the next allocation, with the
  next version and with the copy function that it had. -/
  | publishes {w w' : C} {r : R} {s' : Supply} :
    cell.copyCurrent s = (.ok w, s') → Q w (.ok (r, w')) →
      Commits cell s Q ⟨.ok r, ⟨⟨s'.allocations, w'⟩, cell.copier, cell.version + 1⟩,
        { s' with allocations := s'.allocations + 1 }⟩

theorem write_commits {Q : C → Except Panic (R × C) → Prop} (cell : CopyOnWrite C) (s : Supply)
    {mutation : C → Except Panic (R × C)} (h : ∀ w, Q w (mutation w)) :
    Commits cell s Q (cell.write s mutation) := by
  rcases hcopy : cell.copyCurrent s with ⟨copied, s'⟩
  cases copied with
  | error p =>
    rw [write, attempt_of_copy_error hcopy]
    exact .copyPanics hcopy
  | ok w =>
    have hQ := h w
    cases hw : mutation w with
    | error p =>
      rw [write, attempt_of_error hcopy hw]
      exact .panics hcopy (hw ▸ hQ)
    | ok out =>
      rw [write, attempt_of_ok hcopy hw]
      exact .publishes hcopy (hw ▸ hQ)

/-- A write whose result is shown by a function comes to the same. -/
theorem Commits.map {R' : Type} {Q : C → Except Panic (R × C) → Prop}
    {Q' : C → Except Panic (R' × C) → Prop} {w : Written C Panic R} (f : R → R')
    (h : Commits cell s Q w) (herror : ∀ c p, Q c (.error p) → Q' c (.error p))
    (hok : ∀ c r c', Q c (.ok (r, c')) → Q' c (.ok (f r, c'))) :
    Commits cell s Q' { w with result := w.result.map f } := by
  cases h with
  | copyPanics hcopy => exact .copyPanics hcopy
  | panics hcopy hQ => exact .panics hcopy (herror _ _ hQ)
  | publishes hcopy hQ => exact .publishes hcopy (hok _ _ _ hQ)

theorem copyCurrent_of_faithful {same : C → C → Prop} (h : cell.copier.Faithful same)
    (hrefl : ∀ c, same c c) (s : Supply) :
    ∃ w s', cell.copyCurrent s = (.ok w, s') ∧ same w cell.contents :=
  h.copy_eq hrefl s cell.contents

/-- A mutation that never fails, of a faithful copy, is published once. -/
theorem write_of_faithful {same : C → C → Prop} (h : cell.copier.Faithful same)
    (hrefl : ∀ c, same c c) (s : Supply) {mutation : C → Except Panic (R × C)}
    {Q : R → C → Prop}
    (hmutation : ∀ w, same w cell.contents → ∃ r w', mutation w = .ok (r, w') ∧ Q r w') :
    ∃ r, (cell.write s mutation).result = .ok r ∧ Q r (cell.write s mutation).cell.contents ∧
      (cell.write s mutation).cell.version = cell.version + 1 ∧
      (cell.write s mutation).cell.copier = cell.copier := by
  obtain ⟨w, s', hcopy, hw⟩ := copyCurrent_of_faithful h hrefl s
  obtain ⟨r, w', hok, hQ⟩ := hmutation w hw
  refine ⟨r, ?_⟩
  rw [write, attempt_of_ok hcopy hok]
  exact ⟨rfl, hQ, rfl, rfl⟩

end CopyOnWrite

end SharedCells
