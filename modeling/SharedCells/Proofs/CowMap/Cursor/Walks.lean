import SharedCells.Proofs.CowMap.Cursor.Removal
import SharedCells.Proofs.CowMap.PlainMap
import SharedCells.Proofs.CowMap.SubMap

/-!
# A cursor walks through what was there

A cursor over a map with a faithful copy function shows the entries that were there when it was
made, whatever is written meanwhile. It removes from the live map the key that it showed last, once.

* `Opened` lists how cursors are made, with the entries and the projection of each.
* `Walks` says what a cursor shows, counts and removes, told by the log.
* `run_walks` is the result, for every run.
-/

namespace SharedCells

open Store CopyOnWrite

/-- The cursors that maps, their views and their parts make, each with the entries collected and
with what it shows of them. -/
inductive Opened : {M K V α : Type} → [MapStore M K V] → CowMap M → List (K × V) →
    (K → V → α) → Cursor K V α → Prop
  | map {M K V : Type} [MapStore M K V] (m : CowMap M) :
    Opened m m.entries Prod.mk (.ofEntries m.entries Prod.mk)
  | keys {M K V : Type} [MapStore M K V] (m : CowMap M) :
    Opened m m.entries (fun k _ => k) (.ofEntries m.entries fun k _ => k)
  | values {M K V : Type} [MapStore M K V] (m : CowMap M) :
    Opened m m.entries (fun _ v => v) (.ofEntries m.entries fun _ v => v)
  | entries {M K V : Type} [MapStore M K V] (m : CowMap M) :
    Opened m m.entries Prod.mk (.ofEntries m.entries Prod.mk)
  /-- A part collects the entries whose keys lie in its range. -/
  | part {K V : Type} [LE K] [LT K] [DecidableLE K] [DecidableLT K] [Std.IsLinearOrder K]
    [Std.LawfulOrderLT K] (r : KeyRange K) (m : CowMap (SortedMap K V)) :
    Opened m (m.contents.entries.filter fun e => r.contains e.1) Prod.mk
      (SubMap.cursor r m Prod.mk)

theorem Opened.stands {M K V α : Type} [MapStore M K V] {m : CowMap M} {es : List (K × V)}
    {project : K → V → α} {c : Cursor K V α} (h : Opened m es project c) :
    Session.Stands es project [] [] c := by
  cases h with
  | part r m =>
    rw [SubMap.cursor, SubMap.entries_eq_filter]
    exact Session.stands_start _ _
  | _ => exact Session.stands_start _ _

namespace Session

variable {M K V α : Type} [MapStore M K V]

/-- What a cursor over some entries shows, counts and removes, told by what came before. -/
structure Walks [DecidableEq K] (es : List (K × V)) (project : K → V → α)
    (log : List (Outcome α)) (w : Session M K V α) : Prop where
  /-- What was yielded are the first items, in order. -/
  items : yielded log <+: es.map fun e => project e.1 e.2
  size : (yielded log).length + w.cursor.size = es.length
  next : (w.step .next).1 = .item ((es.map fun e => project e.1 e.2)[(yielded log).length]?)
  done_iff : Done (w.step .remove).1 ↔ YieldedSince Done log
  /-- A removal does what the map does with the key of the entry yielded last. -/
  removes : YieldedSince Done log → ∃ k v, es[(yielded log).length - 1]? = some (k, v) ∧
    (w.step .remove).2 = ⟨{ w.cursor with current := none }, (w.map.remove w.supply k).cell,
      (w.map.remove w.supply k).supply⟩ ∧
    (w.step .remove).2.map.plain = w.map.plain.remove k ∧
      (w.step .remove).2.map.version = w.map.version + 1
  refuses : ¬YieldedSince Done log →
    w.step .remove = (.removal (.error (.rejected .noCurrentElement)), w)

/-! ## Copies that do not fail -/

theorem ends_copier {C : Type} {writes : Bool} {cell : CopyOnWrite C} {s : Supply} {c : Called C}
    (h : Ends writes cell s c) : c.cell.copier = cell.copier := by
  cases h <;> rfl

/-- No event changes how the map copies. -/
theorem step_copier (w : Session M K V α) {event : Event M}
    (hoffered : ∀ act, event = .call act → ∃ writes, Offered writes act) :
    (w.step event).2.map.copier = w.map.copier := by
  cases event with
  | next => rfl
  | remove => exact ends_copier (cursorRemove_ends w.cursor w.map w.supply)
  | call act =>
    obtain ⟨writes, hact⟩ := hoffered act rfl
    exact ends_copier (hact.ends w.map w.supply)

theorem not_panicked_step {w : Session M K V α} (hm : w.map.copier.Faithful CowMap.Alike)
    (event : Event M) : ¬Panicked (w.step event).1 := by
  rintro ⟨p, hp⟩
  cases event with
  | next => cases hp
  | call act => cases hp
  | remove =>
    obtain ⟨c, s', hcopy, -⟩ := copyCurrent_of_faithful hm (fun _ => rfl) w.supply
    cases hcurrent : w.cursor.current with
    | none =>
      rw [step_remove_of_none hcurrent] at hp
      cases hp
    | some k =>
      rw [step_remove_of_copy_ok hcurrent hcopy] at hp
      cases hp

theorem run_faithful {w : Session M K V α} {events : List (Event M)}
    (hm : w.map.copier.Faithful CowMap.Alike)
    (hoffered : ∀ act, .call act ∈ events → ∃ writes, Offered writes act) :
    (w.run events).2.map.copier.Faithful CowMap.Alike ∧ ∀ o ∈ (w.run events).1, ¬Panicked o := by
  induction events generalizing w with
  | nil => exact ⟨hm, fun _ h => nomatch h⟩
  | cons event events ih =>
    have hcopier : (w.step event).2.map.copier = w.map.copier :=
      step_copier w fun act hact => hoffered act (hact ▸ List.mem_cons_self)
    obtain ⟨hmap, hlog⟩ := ih (hcopier ▸ hm) fun act hact =>
      hoffered act (List.mem_cons_of_mem event hact)
    rw [run_cons]
    exact ⟨hmap, List.forall_mem_cons.2 ⟨not_panicked_step hm event, hlog⟩⟩

/-! ## After any run -/

section Walks

variable {es seen : List (K × V)} {project : K → V → α} {log : List (Outcome α)}
  {w : Session M K V α}

variable [DecidableEq K] {before : K → K → Prop} [laws : LawfulMapStore M before]

include laws

theorem Stands.walks (h : Stands es project seen log w.cursor)
    (hm : w.map.copier.Faithful CowMap.Alike) (hlog : ∀ o ∈ log, ¬Panicked o) :
    Walks es project log w := by
  have hremoves := h.removes
  obtain ⟨c, s', hcopy, -⟩ := copyCurrent_of_faithful hm (fun _ => rfl) w.supply
  have hheld_iff := yieldedSince_done_iff hlog
  refine ⟨h.items_prefix, h.length_add_size, congrArg Outcome.item h.next_item,
    ⟨fun hdone => ?_, fun hheld => ?_⟩, fun hheld => ?_,
    fun hnot => hremoves.refused (hheld_iff.not.1 hnot)⟩
  · by_contra hnot
    rw [hremoves.refused (hheld_iff.not.1 hnot)] at hdone
    cases hdone
  · obtain ⟨k, v, -, hstep⟩ := hremoves.removed (hheld_iff.1 hheld) c s' hcopy
    rw [hstep]
    rfl
  · obtain ⟨k, v, hlast, hstep⟩ := hremoves.removed (hheld_iff.1 hheld) c s' hcopy
    obtain ⟨⟨-, hplain⟩, hversion, -⟩ := CowMap.remove_realizes hm w.supply k
    refine ⟨k, v, hlast, ?_⟩
    rw [hstep]
    exact ⟨rfl, hplain, hversion⟩

end Walks

/-- A cursor over a map with a faithful copy function, after any calls of its own and any other
calls on the map, other cursors included. -/
theorem run_walks [DecidableEq K] {before : K → K → Prop} [LawfulMapStore M before]
    {m : CowMap M} {es : List (K × V)} {project : K → V → α} {c : Cursor K V α}
    (hopened : Opened m es project c) (hm : m.copier.Faithful CowMap.Alike) (s : Supply)
    {events : List (Event M)}
    (hoffered : ∀ act, .call act ∈ events → ∃ writes, Offered writes act) :
    let out := run ⟨c, m, s⟩ events
    Walks es project out.1 out.2 := by
  obtain ⟨seen, hstands⟩ := Stands.run (w := ⟨c, m, s⟩) hopened.stands events
  obtain ⟨hmap, hlog⟩ := run_faithful (w := ⟨c, m, s⟩) hm hoffered
  exact hstands.walks hmap hlog

omit [MapStore M K V] in
/-- A cursor over the keys below 3. The value under 1 is replaced before it is removed; another
cursor removes 2 first, and the removal of 2 counts a version nevertheless. -/
theorem run_walks_part :
    let m : CowMap (SortedMap Nat Nat) :=
      ⟨⟨0, MapStore.ofList [(1, 10), (2, 20), (3, 30)]⟩, .custom fun _ c => .ok c, 0⟩
    let r : KeyRange Nat := ⟨.unbounded, .excluded 3⟩
    let es := m.contents.entries.filter fun e => r.contains e.1
    let other : Cursor Nat Nat Nat := ⟨[], fun k _ => k, some 2⟩
    let events : List (Event (SortedMap Nat Nat)) :=
      [.next, .call fun m s => (CowMap.put m s 1 99).called, .remove, .remove, .next,
        .call fun m s => (other.remove m s).2.called, .next, .remove]
    let out := run ⟨SubMap.cursor r m Prod.mk, m, ⟨0, 1⟩⟩ events
    Opened m es Prod.mk (SubMap.cursor r m Prod.mk) ∧ m.copier.Faithful CowMap.Alike ∧
      (∀ act, .call act ∈ events → ∃ writes, Offered writes act) ∧
      out.1 = [.item (some (1, 10)), .called true, .removal (.ok ()),
        .removal (.error (.rejected .noCurrentElement)), .item (some (2, 20)), .called true,
        .item none, .removal (.ok ())] ∧
      out.2.map.entries = [(3, 30)] ∧ out.2.map.version = 4 ∧ Walks es Prod.mk out.1 out.2 := by
  intro m r es other events out
  have hopened : Opened m es Prod.mk (SubMap.cursor r m Prod.mk) := .part r m
  have hm : m.copier.Faithful CowMap.Alike := fun _ c => ⟨c, rfl, rfl⟩
  have hoffered : ∀ act, .call act ∈ events → ∃ writes, Offered writes act := by
    intro act hact
    simp only [events, List.mem_cons, List.not_mem_nil, Event.call.injEq, reduceCtorEq, false_or,
      or_false] at hact
    rcases hact with rfl | rfl
    · exact ⟨true, .put 1 99⟩
    · exact ⟨true, .cursorRemove other⟩
  exact ⟨hopened, hm, hoffered, rfl, rfl, rfl, run_walks hopened hm ⟨0, 1⟩ hoffered⟩

end Session

end SharedCells
