import SharedCells.CowMap.Cursor
import SharedCells.Proofs.CopyOnWrite.Atomic

/-!
# Cursors beside a live map

A `Session` is a cursor with the map that it removes from. It is asked for items and for removals,
while anything may be done with the map in between; the log lists what came of it all.

* `yielded` and `YieldedSince` read a log: what was yielded, and whether anything was yielded after
  the last outcome of a kind.
* `Stands` is what a cursor knows at a moment, told by the log alone. `Stands.step` says that every
  event keeps it, whatever the copy function of the map does, and `Stands.run` that a run does.
-/

namespace SharedCells

open Store CopyOnWrite

/-! ## One removal -/

namespace Cursor

variable {M K V α : Type} [MapStore M K V] {c : Cursor K V α} {m : CowMap M} {s s' : Supply}

theorem remove_of_none (h : c.current = none) :
    c.remove m s = (c, ⟨.error (.rejected .noCurrentElement), m, s⟩) := by
  simp only [remove, h]

/-- The copy function panics: the map stays as it is, and yet the key is forgotten. -/
theorem remove_of_copy_error {k : K} {p : Panic} (h : c.current = some k)
    (hcopy : m.copyCurrent s = (.error p, s')) :
    c.remove m s = ({ c with current := none }, ⟨.error (.panicked p), m, s'⟩) := by
  simp only [remove, h, CowMap.remove, write, attempt_of_copy_error hcopy, id]

/-- A copy is made: the map is written as by a removal of the key. -/
theorem remove_of_copy_ok {k : K} {w : M} (h : c.current = some k)
    (hcopy : m.copyCurrent s = (.ok w, s')) :
    c.remove m s =
      ({ c with current := none }, ⟨.ok (), (m.remove s k).cell, (m.remove s k).supply⟩) := by
  have hremoved : (m.remove s k).result = .ok (MapStore.erase w k).2 :=
    congrArg Written.result (attempt_of_ok hcopy rfl)
  simp only [remove, h, hremoved]

end Cursor

/-- A cursor and the live map that it removes from. -/
structure Session (M K V α : Type) where
  cursor : Cursor K V α
  map : CowMap M
  supply : Supply

namespace Session

variable {M K V α : Type}

/-! ## Runs -/

/-- What may happen to a cursor and to its map. -/
inductive Event (M : Type) where
  | next
  | remove
  /-- Something is done with the map, through another cursor perhaps. -/
  | call (act : Act M)

/-- What comes of it. -/
inductive Outcome (α : Type) where
  | item (item? : Option α)
  | removal (result : Except (Fault ViewError) Unit)
  | called (returned : Bool)

def step [MapStore M K V] (w : Session M K V α) : Event M → Outcome α × Session M K V α
  | .next => (.item w.cursor.next.1, { w with cursor := w.cursor.next.2 })
  | .remove =>
    let (cursor, written) := w.cursor.remove w.map w.supply
    (.removal written.result, ⟨cursor, written.cell, written.supply⟩)
  | .call act =>
    let called := act w.map w.supply
    (.called called.returned, { w with map := called.cell, supply := called.supply })

/-- What comes of events one after another, with the session that they leave. -/
def run [MapStore M K V] (w : Session M K V α) :
    List (Event M) → List (Outcome α) × Session M K V α
  | [] => ([], w)
  | event :: events =>
    let (outcome, w) := w.step event
    let (outcomes, w) := w.run events
    (outcome :: outcomes, w)

theorem run_cons [MapStore M K V] (w : Session M K V α) (event : Event M)
    (events : List (Event M)) :
    w.run (event :: events) =
      ((w.step event).1 :: ((w.step event).2.run events).1, ((w.step event).2.run events).2) :=
  rfl

/-! ## Reading a log -/

/-- The items yielded, the first one first. -/
def yielded (log : List (Outcome α)) : List α :=
  log.filterMap fun
    | .item item? => item?
    | _ => none

theorem yielded_concat (log : List (Outcome α)) (o : Outcome α) :
    yielded (log ++ [o]) = yielded log ++ yielded [o] := List.filterMap_append

/-- An item was yielded, and nothing of a kind came after it. -/
def YieldedSince (kind : Outcome α → Prop) (log : List (Outcome α)) : Prop :=
  ∃ before a after, log = before ++ .item (some a) :: after ∧ ∀ o ∈ after, ¬kind o

section YieldedSince

variable {kind kind' : Outcome α → Prop} {log : List (Outcome α)} {o : Outcome α}

theorem yieldedSince_concat_item (a : α) : YieldedSince kind (log ++ [.item (some a)]) :=
  ⟨log, a, [], rfl, fun _ h => nomatch h⟩

/-- An outcome that yields nothing ends what was yielded if it is of the kind; else it leaves it. -/
theorem yieldedSince_concat_iff (ho : yielded [o] = []) :
    YieldedSince kind (log ++ [o]) ↔ ¬kind o ∧ YieldedSince kind log := by
  constructor
  · rintro ⟨before, a, after, h, hafter⟩
    -- The log ends with `o`, which is not the item, so that it stands behind the item.
    rcases List.eq_nil_or_concat' after with rfl | ⟨after, o', rfl⟩
    · obtain ⟨-, hlast⟩ := List.append_inj' h rfl
      cases hlast
      cases ho
    · rw [← List.cons_append, ← List.append_assoc] at h
      obtain ⟨rfl, hlast⟩ := List.append_inj' h rfl
      cases hlast
      exact ⟨hafter o (by simp), before, a, after, rfl, fun o' ho' => hafter o' (by simp [ho'])⟩
  · rintro ⟨hkind, before, a, after, rfl, hafter⟩
    refine ⟨before, a, after ++ [o], by simp, fun o' ho' => ?_⟩
    rcases List.mem_append.1 ho' with ho' | ho'
    · exact hafter o' ho'
    · rwa [List.mem_singleton.1 ho']

theorem YieldedSince.yielded_ne_nil (h : YieldedSince kind log) : yielded log ≠ [] := by
  obtain ⟨before, a, after, rfl, -⟩ := h
  refine List.ne_nil_of_mem (a := a) (List.mem_filterMap.2 ⟨.item (some a), ?_, rfl⟩)
  exact List.mem_append_right before List.mem_cons_self

/-- Which outcomes are of the kind matters in the log only. -/
theorem yieldedSince_congr (h : ∀ o ∈ log, kind o ↔ kind' o) :
    YieldedSince kind log ↔ YieldedSince kind' log := by
  constructor <;> rintro ⟨before, a, after, rfl, hafter⟩ <;>
    refine ⟨before, a, after, rfl, fun o ho => ?_⟩ <;>
      have ho' : o ∈ before ++ .item (some a) :: after :=
        List.mem_append_right before (List.mem_cons_of_mem _ ho)
  · exact fun hkind => hafter o ho ((h o ho').2 hkind)
  · exact fun hkind => hafter o ho ((h o ho').1 hkind)

end YieldedSince

/-- A removal that came to its end. -/
def Done (o : Outcome α) : Prop := o = .removal (.ok ())

/-- A removal that the copy function of the map cut short. -/
def Panicked (o : Outcome α) : Prop := ∃ p, o = .removal (.error (.panicked p))

/-- A removal for which the cursor had a key, whether it came to its end or not. -/
def Attempted (o : Outcome α) : Prop := Done o ∨ Panicked o

/-- With a key at hand a removal is attempted, and the key is forgotten. -/
theorem remove_attempted [MapStore M K V] {c : Cursor K V α} {k : K} (h : c.current = some k)
    (m : CowMap M) (s : Supply) :
    (c.remove m s).1 = { c with current := none } ∧
      Attempted (.removal (c.remove m s).2.result : Outcome α) := by
  rcases hcopy : m.copyCurrent s with ⟨p | w, s'⟩
  · rw [Cursor.remove_of_copy_error h hcopy]
    exact ⟨rfl, Or.inr ⟨p, rfl⟩⟩
  · rw [Cursor.remove_of_copy_ok h hcopy]
    exact ⟨rfl, Or.inl rfl⟩

/-! ## What a cursor knows -/

/-- The entries of a cursor are those gone through and those to come. What was yielded is what is
shown of the former, and the key of the last one is at hand until its removal is attempted. -/
structure Stands (es : List (K × V)) (project : K → V → α) (seen : List (K × V))
    (log : List (Outcome α)) (c : Cursor K V α) : Prop where
  entries : es = seen ++ c.remaining
  shown : c.project = project
  items : yielded log = seen.map fun e => project e.1 e.2
  current : ∀ k, c.current = some k ↔
    YieldedSince Attempted log ∧ seen.getLast?.map Prod.fst = some k

theorem stands_start (es : List (K × V)) (project : K → V → α) :
    Stands es project [] [] (.ofEntries es project) :=
  ⟨rfl, rfl, rfl, fun k => by simp [Cursor.ofEntries]⟩

section Stands

variable {es seen : List (K × V)} {project : K → V → α} {log : List (Outcome α)}
  {c : Cursor K V α}

theorem Stands.items_prefix (h : Stands es project seen log c) :
    yielded log <+: es.map fun e => project e.1 e.2 := by
  rw [h.items, h.entries, List.map_append]
  exact List.prefix_append _ _

theorem Stands.length_add_size (h : Stands es project seen log c) :
    (yielded log).length + c.size = es.length := by
  rw [h.items, List.length_map, h.entries, List.length_append]
  rfl

/-- The next item is that of the first entry not gone through. -/
theorem Stands.next_item (h : Stands es project seen log c) :
    c.next.1 = (es.map fun e => project e.1 e.2)[(yielded log).length]? := by
  rw [List.getElem?_map, h.items, List.length_map, h.entries,
    List.getElem?_append_right (Nat.le_refl _), Nat.sub_self, ← List.head?_eq_getElem?, ← h.shown,
    Cursor.next]
  rcases c.remaining with _ | ⟨⟨k, v⟩, rest⟩ <;> rfl

/-- With an item yielded since the last attempt, the key of the last entry gone through is at
hand. -/
theorem Stands.exists_current (h : Stands es project seen log c)
    (hheld : YieldedSince Attempted log) :
    ∃ k v, c.current = some k ∧ es[(yielded log).length - 1]? = some (k, v) := by
  have hseen : seen ≠ [] := by
    rintro rfl
    exact hheld.yielded_ne_nil h.items
  have hlast : seen.getLast? = some (seen.getLast hseen) := List.getLast?_eq_getLast_of_ne_nil hseen
  refine ⟨(seen.getLast hseen).1, (seen.getLast hseen).2, (h.current _).2 ⟨hheld, ?_⟩, ?_⟩
  · rw [hlast]
    rfl
  · have hpos := List.length_pos_iff.2 hseen
    rw [h.items, List.length_map, h.entries, List.getElem?_append_left (by omega),
      ← List.getLast?_eq_getElem?, hlast]

theorem Stands.current_eq_none (h : Stands es project seen log c)
    (hnot : ¬YieldedSince Attempted log) : c.current = none :=
  Option.eq_none_iff_forall_ne_some.2 fun k hk => hnot ((h.current k).1 hk).1

/-- An outcome that does not concern the cursor. -/
theorem Stands.concat (h : Stands es project seen log c) {o : Outcome α}
    (ho : yielded [o] = []) (hkind : ¬Attempted o) :
    Stands es project seen (log ++ [o]) c := by
  refine ⟨h.entries, h.shown, ?_, fun k => ?_⟩
  · rw [yielded_concat, ho, List.append_nil, h.items]
  · rw [yieldedSince_concat_iff ho, h.current]
    simp [hkind]

theorem Stands.next (h : Stands es project seen log c) :
    ∃ seen', Stands es project seen' (log ++ [.item c.next.1]) c.next.2 := by
  unfold Cursor.next
  rcases hrest : c.remaining with _ | ⟨⟨k, v⟩, rest⟩
  · exact ⟨seen, h.concat rfl (by rintro (h | ⟨p, h⟩) <;> cases h)⟩
  · refine ⟨seen ++ [(k, v)], ?_, h.shown, ?_, fun k' => ?_⟩
    · rw [h.entries, hrest, List.append_assoc]
      rfl
    · rw [yielded_concat, h.items, List.map_append, h.shown]
      rfl
    · simp [yieldedSince_concat_item]

/-- A removal forgets the key, if there is one. -/
theorem Stands.remove [MapStore M K V] (h : Stands es project seen log c) (m : CowMap M)
    (s : Supply) :
    Stands es project seen (log ++ [.removal (c.remove m s).2.result]) (c.remove m s).1 := by
  rcases hcurrent : c.current with _ | k
  · rw [Cursor.remove_of_none hcurrent]
    exact h.concat rfl (by rintro (h | ⟨p, h⟩) <;> cases h)
  · obtain ⟨hforgets, hattempted⟩ := remove_attempted hcurrent m s
    rw [hforgets]
    refine ⟨h.entries, h.shown, ?_, fun k' => ?_⟩
    · rw [yielded_concat, h.items]
      exact List.append_nil _
    · rw [yieldedSince_concat_iff rfl]
      simp [hattempted]

variable [MapStore M K V]

/-- Whatever happens: what the cursor knows is told by the log. -/
theorem Stands.step {w : Session M K V α} (h : Stands es project seen log w.cursor)
    (event : Event M) :
    ∃ seen', Stands es project seen' (log ++ [(w.step event).1]) (w.step event).2.cursor := by
  cases event with
  | next => exact h.next
  | remove => exact ⟨seen, h.remove w.map w.supply⟩
  | call act => exact ⟨seen, h.concat rfl (by rintro (h | ⟨p, h⟩) <;> cases h)⟩

theorem Stands.run {w : Session M K V α} (h : Stands es project seen log w.cursor)
    (events : List (Event M)) :
    ∃ seen', Stands es project seen' (log ++ (w.run events).1) (w.run events).2.cursor := by
  induction events generalizing w seen log with
  | nil => exact ⟨seen, by rwa [Session.run, List.append_nil]⟩
  | cons event events ih =>
    obtain ⟨seen', h'⟩ := h.step event
    rw [run_cons, List.append_cons]
    exact ih h'

end Stands

end Session

end SharedCells
