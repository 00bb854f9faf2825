import SharedCells.Proofs.CowMap.Cursor.Session

/-!
# Removals that fail

A copy function may panic while a cursor removes. The map then stays as it was; the cursor does
not, because it forgets its key before the map is written.

* `run_removes` says what a removal comes to after any run, for any copy function. It is all or
  nothing except where the copy function panics with a key at hand.
* `panicked_removal_loses_key` is the shortest run in which an entry stays that the cursor can no
  longer remove.
-/

namespace SharedCells.Session

open Store CopyOnWrite

variable {M K V α : Type} [MapStore M K V]

/-- A removal that fails leaves the map and the cursor as they were. -/
def AllOrNothing (w : Session M K V α) : Prop :=
  ¬Done (w.step .remove).1 →
    (w.step .remove).2.map = w.map ∧ (w.step .remove).2.cursor = w.cursor

/-- The next copy of the map panics. -/
def CopyPanics (w : Session M K V α) : Prop := ∃ p s', w.map.copyCurrent w.supply = (.error p, s')

/-- What a removal comes to, told by what came before it and by the copy function. -/
structure Removes (es : List (K × V)) (log : List (Outcome α)) (w : Session M K V α) : Prop where
  /-- Unless an item was yielded since the last attempt, it is refused and changes nothing. -/
  refused : ¬YieldedSince Attempted log →
    w.step .remove = (.removal (.error (.rejected .noCurrentElement)), w)
  /-- With a panic of the copy function only the key is lost. -/
  panicked : YieldedSince Attempted log → ∀ p s', w.map.copyCurrent w.supply = (.error p, s') →
    w.step .remove =
      (.removal (.error (.panicked p)), ⟨{ w.cursor with current := none }, w.map, s'⟩)
  /-- With a copy the key of the entry yielded last is removed. -/
  removed : YieldedSince Attempted log → ∀ c s', w.map.copyCurrent w.supply = (.ok c, s') →
    ∃ k v, es[(yielded log).length - 1]? = some (k, v) ∧
      w.step .remove = (.removal (.ok ()), ⟨{ w.cursor with current := none },
        (w.map.remove w.supply k).cell, (w.map.remove w.supply k).supply⟩)
  keepsMap : ¬Done (w.step .remove).1 → (w.step .remove).2.map = w.map
  allOrNothing_iff : w.AllOrNothing ↔ ¬(YieldedSince Attempted log ∧ w.CopyPanics)
  /-- The item whose removal panicked cannot be removed any more. -/
  lost : Panicked (w.step .remove).1 → ((w.step .remove).2.step .remove).1 =
    .removal (.error (.rejected .noCurrentElement))
  /-- If no removal panicked so far, it is refused only if nothing was yielded since the last one
  that came to its end. -/
  documented : (∀ o ∈ log, ¬Panicked o) →
    ((w.step .remove).1 = .removal (.error (.rejected .noCurrentElement)) ↔
      ¬YieldedSince Done log)

/-! ## One removal -/

variable {w : Session M K V α} {k : K} {s' : Supply}

theorem step_remove_of_none (h : w.cursor.current = none) :
    w.step .remove = (.removal (.error (.rejected .noCurrentElement)), w) := by
  rw [step, Cursor.remove_of_none h]

theorem step_remove_of_copy_error {p : Panic} (h : w.cursor.current = some k)
    (hcopy : w.map.copyCurrent w.supply = (.error p, s')) :
    w.step .remove =
      (.removal (.error (.panicked p)), ⟨{ w.cursor with current := none }, w.map, s'⟩) := by
  rw [step, Cursor.remove_of_copy_error h hcopy]

theorem step_remove_of_copy_ok {c : M} (h : w.cursor.current = some k)
    (hcopy : w.map.copyCurrent w.supply = (.ok c, s')) :
    w.step .remove = (.removal (.ok ()), ⟨{ w.cursor with current := none },
      (w.map.remove w.supply k).cell, (w.map.remove w.supply k).supply⟩) := by
  rw [step, Cursor.remove_of_copy_ok h hcopy]

/-! ## After any run -/

variable {es seen : List (K × V)} {project : K → V → α} {log : List (Outcome α)}

theorem yieldedSince_done_iff (h : ∀ o ∈ log, ¬Panicked o) :
    YieldedSince Done log ↔ YieldedSince Attempted log :=
  yieldedSince_congr fun o ho => (or_iff_left (h o ho)).symm

/-- Without a key at hand. -/
theorem Stands.removes_of_not (h : Stands es project seen log w.cursor)
    (hnot : ¬YieldedSince Attempted log) : Removes es log w := by
  have hstep := step_remove_of_none (h.current_eq_none hnot)
  refine ⟨fun _ => hstep, fun hheld => absurd hheld hnot, fun hheld => absurd hheld hnot,
    fun _ => by rw [hstep], ?_, ?_, fun hpanics => ?_⟩
  · refine iff_of_true (fun _ => ?_) fun hheld => hnot hheld.1
    rw [hstep]
    exact ⟨rfl, rfl⟩
  · rw [hstep]
    rintro ⟨p, hp⟩
    cases hp
  · rw [yieldedSince_done_iff hpanics, hstep]
    exact iff_of_true rfl hnot

/-- With a key at hand that the copy function makes the cursor lose. -/
theorem Stands.removes_of_copy_error (h : Stands es project seen log w.cursor)
    (hheld : YieldedSince Attempted log) {p : Panic}
    (hcopy : w.map.copyCurrent w.supply = (.error p, s')) : Removes es log w := by
  obtain ⟨k, v, hcurrent, -⟩ := h.exists_current hheld
  have hstep := step_remove_of_copy_error hcurrent hcopy
  refine ⟨absurd hheld, fun _ p' s'' hcopy' => ?_, fun _ c s'' hcopy' => ?_, fun _ => by rw [hstep],
    ?_, fun _ => ?_, fun hpanics => ?_⟩
  · exact step_remove_of_copy_error hcurrent hcopy'
  · rw [hcopy] at hcopy'
    cases hcopy'
  · refine iff_of_false (fun hall => ?_) fun hnot => hnot ⟨hheld, p, s', hcopy⟩
    have hforgets := congrArg Cursor.current (hall (by rw [hstep]; exact nofun)).2
    rw [hstep, hcurrent] at hforgets
    cases hforgets
  · rw [hstep, step_remove_of_none rfl]
  · rw [yieldedSince_done_iff hpanics, hstep]
    exact iff_of_false nofun (not_not_intro hheld)

/-- With a key at hand and a copy. -/
theorem Stands.removes_of_copy_ok (h : Stands es project seen log w.cursor)
    (hheld : YieldedSince Attempted log) {c : M}
    (hcopy : w.map.copyCurrent w.supply = (.ok c, s')) : Removes es log w := by
  obtain ⟨k, v, hcurrent, hlast⟩ := h.exists_current hheld
  have hstep := step_remove_of_copy_ok hcurrent hcopy
  have hdone : Done (w.step .remove).1 := by rw [hstep]; rfl
  refine ⟨absurd hheld, fun _ p s'' hcopy' => ?_, fun _ _ _ _ => ⟨k, v, hlast, hstep⟩, absurd hdone,
    ?_, ?_, fun hpanics => ?_⟩
  · rw [hcopy] at hcopy'
    cases hcopy'
  · refine iff_of_true (absurd hdone) ?_
    rintro ⟨-, p, s'', hcopy'⟩
    rw [hcopy] at hcopy'
    cases hcopy'
  · rw [hstep]
    rintro ⟨p, hp⟩
    cases hp
  · rw [yieldedSince_done_iff hpanics, hstep]
    exact iff_of_false nofun (not_not_intro hheld)

theorem Stands.removes (h : Stands es project seen log w.cursor) : Removes es log w := by
  by_cases hheld : YieldedSince Attempted log
  · rcases hcopy : w.map.copyCurrent w.supply with ⟨p | c, s'⟩
    · exact h.removes_of_copy_error hheld hcopy
    · exact h.removes_of_copy_ok hheld hcopy
  · exact h.removes_of_not hheld

/-- Whatever happened to a cursor and to its map, and whatever the copy function does: a removal is
all or nothing exactly unless the copy function panics with a key at hand. -/
theorem run_removes (es : List (K × V)) (project : K → V → α) (m : CowMap M) (s : Supply)
    (events : List (Event M)) :
    let out := run ⟨.ofEntries es project, m, s⟩ events
    Removes es out.1 out.2 := by
  have hstart : Stands es project [] [] (Cursor.ofEntries es project) := stands_start es project
  obtain ⟨seen, h⟩ := Stands.run (w := ⟨_, m, s⟩) hstart events
  exact h.removes

omit [MapStore M K V] in
/-- A map is made with one copy; the next copy, for the first removal, panics, and no other does.
The entry is still in the map, and yet the second removal is refused. -/
theorem panicked_removal_loses_key :
    let initial : SortedMap Nat Nat := MapStore.ofList [(1, 10)]
    let copier : Copier (SortedMap Nat Nat) :=
      .custom fun n c => if n = 2 then .error ⟨"copier panic"⟩ else .ok c
    let m : CowMap (SortedMap Nat Nat) := ⟨⟨0, initial⟩, copier, 0⟩
    let start : Session (SortedMap Nat Nat) Nat Nat (Nat × Nat) :=
      ⟨.ofEntries m.entries Prod.mk, m, ⟨1, 1⟩⟩
    let out := start.run [.next, .remove, .remove]
    withCopier initial copier {} = (.ok m, start.supply) ∧
      ¬(start.run [.next]).2.AllOrNothing ∧
      out.1 = [.item (some (1, 10)), .removal (.error (.panicked ⟨"copier panic"⟩)),
        .removal (.error (.rejected .noCurrentElement))] ∧
      out.2.map.entries = [(1, 10)] ∧ YieldedSince Done out.1 := by
  intro initial copier m start out
  refine ⟨rfl, fun hall => ?_, rfl, rfl, [], (1, 10), _, rfl, fun o ho => ?_⟩
  · have hforgets := congrArg Cursor.current (hall nofun).2
    cases hforgets
  · rcases List.mem_cons.1 ho with rfl | ho
    · exact nofun
    · rw [List.mem_singleton.1 ho]
      exact nofun

end SharedCells.Session
