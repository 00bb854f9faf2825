import SharedCells.Proofs.CopyOnWrite.Atomic
import SharedCells.Proofs.CowMap.PlainMap
import SharedCells.Proofs.CowMap.SubMap
import SharedCells.Proofs.Snapshot
import SharedCells.Proofs.Store.LawfulSet
import SharedCells.Proofs.Turns

/-!
# Iterators beside a live collection

An iterator and its clones are consumed from both ends, in any order, while anything is done with
the collection that made the first of them.

* `Makes` lists the iterators that maps, sets and views offer, with what each goes through.
* `Readers` is a live collection with an iterator and its clones. `step` is one event, and
  `step_draws` and `whole_step` say what it does to them; `run_draws` and `whole_run` are the same
  for a run.
* `run_isolated` is the result: every iterator goes through what the collection was when the first
  of them was made, and is moved by its own calls only.
-/

namespace SharedCells

open Store CopyOnWrite Snapshot

/-! ## What is gone through -/

/-- What is shown of the entries that a map has by some account of it, in the order in which its
store lists them. -/
def Through {M K V α : Type} [MapStore M K V] (entriesOf : CowMap M → Plain K V) (shown : K × V → α)
    (m : CowMap M) (items : List α) : Prop :=
  ∃ es : List (K × V), es.Sublist m.entries ∧ (es.map Prod.fst).Nodup ∧ (entriesOf m).Holds es ∧
    items = es.map shown

/-- The account of a sorted map that leaves out what lies outside a range. -/
def plainPart {K V : Type} [LE K] [LT K] [DecidableLE K] [DecidableLT K] [Std.IsLinearOrder K]
    [Std.LawfulOrderLT K] (r : KeyRange K) (m : CowMap (SortedMap K V)) : Plain K V :=
  SubMap.part r m.plain

/-- The iterators that collections and their views make, with what each of them goes through. -/
inductive Makes : {C α : Type} → (CopyOnWrite C → Snapshot α) → (CopyOnWrite C → List α → Prop) →
    Prop
  -- Maps and their views.
  | map {M K V : Type} [MapStore M K V] [DecidableEq K] {before : K → K → Prop}
    [LawfulMapStore M before] : Makes (C := M) CowMap.iter (Through CowMap.plain id)
  | keys {M K V : Type} [MapStore M K V] [DecidableEq K] {before : K → K → Prop}
    [LawfulMapStore M before] : Makes (C := M) KeySet.iter (Through CowMap.plain Prod.fst)
  | values {M K V : Type} [MapStore M K V] [DecidableEq K] {before : K → K → Prop}
    [LawfulMapStore M before] : Makes (C := M) Values.iter (Through CowMap.plain Prod.snd)
  | entries {M K V : Type} [MapStore M K V] [DecidableEq K] {before : K → K → Prop}
    [LawfulMapStore M before] : Makes (C := M) EntrySet.iter (Through CowMap.plain id)
  -- Parts of sorted maps.
  | part {K V : Type} [LE K] [LT K] [DecidableLE K] [DecidableLT K] [Std.IsLinearOrder K]
    [Std.LawfulOrderLT K] (r : KeyRange K) :
    Makes (C := SortedMap K V) (SubMap.iter r) (Through (plainPart r) id)
  | partKeys {K V : Type} [LE K] [LT K] [DecidableLE K] [DecidableLT K] [Std.IsLinearOrder K]
    [Std.LawfulOrderLT K] (r : KeyRange K) :
    Makes (C := SortedMap K V) (SubMap.keys r) (Through (plainPart r) Prod.fst)
  | partValues {K V : Type} [LE K] [LT K] [DecidableLE K] [DecidableLT K] [Std.IsLinearOrder K]
    [Std.LawfulOrderLT K] (r : KeyRange K) :
    Makes (C := SortedMap K V) (SubMap.values r) (Through (plainPart r) Prod.snd)
  -- Sets.
  | set {S α : Type} [SetStore S α] {alike : List α → List α → Prop} [LawfulSetStore S alike] :
    Makes (C := S) CowSet.iter fun c items =>
      items = CowSet.items c ∧ items.Nodup ∧ ∀ a, a ∈ items ↔ CowSet.contains c a = true

theorem through_entries {M K V α : Type} [MapStore M K V] [DecidableEq K] {before : K → K → Prop}
    [LawfulMapStore M before] (m : CowMap M) (shown : K × V → α) :
    Through CowMap.plain shown m (m.entries.map shown) :=
  have hlists := LawfulMapStore.lists m.contents
  ⟨m.entries, .refl _, hlists.distinct, hlists.holds, rfl⟩

theorem through_part {K V α : Type} [LE K] [LT K] [DecidableLE K] [DecidableLT K]
    [Std.IsLinearOrder K] [Std.LawfulOrderLT K] (r : KeyRange K) (m : CowMap (SortedMap K V))
    (shown : K × V → α) : Through (plainPart r) shown m ((SubMap.entries r m).map shown) := by
  have hlists := SubMap.lists_entries r m
  refine ⟨SubMap.entries r m, ?_, hlists.distinct, hlists.holds, rfl⟩
  rw [SubMap.entries_eq_filter]
  exact List.filter_sublist

variable {C α : Type}

theorem Makes.shows {make : CopyOnWrite C → Snapshot α} {shows : CopyOnWrite C → List α → Prop}
    (h : Makes make shows) (cell : CopyOnWrite C) : shows cell (make cell).items := by
  cases h with
  | map | entries =>
    have h := through_entries cell id
    rwa [List.map_id] at h
  | keys => exact through_entries cell Prod.fst
  | values => exact through_entries cell Prod.snd
  | part r =>
    have h := through_part r cell id
    rwa [List.map_id] at h
  | partKeys r => exact through_part r cell Prod.fst
  | partValues r => exact through_part r cell Prod.snd
  | set =>
    exact ⟨rfl, LawfulSetStore.nodup _, fun a => (LawfulSetStore.contains_iff cell.contents a).symm⟩

/-! ## Runs -/

/-- A live collection with an iterator that it made, and the clones of that. -/
structure Readers (C α : Type) where
  cell : CopyOnWrite C
  supply : Supply
  /-- The iterators, each with what was taken from it, or from what it is a clone of. -/
  draws : List (Draws α)

namespace Readers

/-- What may happen to a collection and its iterators. -/
inductive Event (C : Type) where
  | take (i : Nat) (e : End)
  | clone (i : Nat)
  /-- Something is done with the collection. -/
  | call (act : Act C)

def ofIterator (make : CopyOnWrite C → Snapshot α) (cell : CopyOnWrite C) (s : Supply) :
    Readers C α :=
  ⟨cell, s, [.start (make cell)]⟩

def step (w : Readers C α) : Event C → Readers C α
  | .take i e => { w with draws := w.draws.modify i (·.take e) }
  | .clone i => { w with draws := w.draws ++ w.draws[i]?.toList }
  | .call act =>
    let called := act w.cell w.supply
    { w with cell := called.cell, supply := called.supply }

def run (w : Readers C α) (events : List (Event C)) : Readers C α := events.foldl step w

/-- The ends that an iterator is asked at. -/
def asked (i : Nat) (events : List (Event C)) : List End :=
  events.filterMap fun
    | .take j e => if j = i then some e else none
    | _ => none

/-- What is done with the collection. -/
def acts (events : List (Event C)) : List (Act C) :=
  events.filterMap fun
    | .call act => some act
    | _ => none

variable {w : Readers C α} {i : Nat} {d : Draws α}

/-- An iterator is moved by its own calls only. -/
theorem step_draws (hd : w.draws[i]? = some d) (event : Event C) :
    (w.step event).draws[i]? = some (d.run (asked i [event])) := by
  cases event with
  | take j e =>
    by_cases hj : j = i
    · subst hj
      simp [step, asked, Draws.run, hd]
    · simp [step, asked, Draws.run, hj, hd]
  | clone j =>
    have hi := (List.getElem?_eq_some_iff.1 hd).1
    exact (List.getElem?_append_left hi).trans hd
  | call act => exact hd

theorem run_draws (hd : w.draws[i]? = some d) (events : List (Event C)) :
    (w.run events).draws[i]? = some (d.run (asked i events)) := by
  induction events generalizing w d with
  | nil => exact hd
  | cons event events ih =>
    have hasked : asked i (event :: events) = asked i [event] ++ asked i events :=
      List.filterMap_append (l := [event])
    rw [hasked, Draws.run, List.foldl_append]
    exact ih (step_draws hd event)

theorem step_clone (hd : w.draws[i]? = some d) :
    (w.step (.clone i)).draws[w.draws.length]? = some d := by
  simp [step, hd]

/-- Iterators keep the items that they were made of. -/
theorem whole_step {items : List α} (h : ∀ d ∈ w.draws, d.whole = items) (event : Event C) :
    ∀ d ∈ (w.step event).draws, d.whole = items := by
  intro d hd
  cases event with
  | take i e =>
    obtain hd | ⟨d, hold, rfl⟩ := mem_modify hd
    · exact h d hd
    · exact (d.take_whole e).trans (h d (List.mem_of_getElem? hold))
  | clone i =>
    obtain hd | hd := List.mem_append.1 hd
    · exact h d hd
    · exact h d (List.mem_of_getElem? (Option.mem_toList.1 hd))
  | call act => exact h d hd

theorem whole_run {items : List α} (h : ∀ d ∈ w.draws, d.whole = items)
    (events : List (Event C)) : ∀ d ∈ (w.run events).draws, d.whole = items := by
  induction events generalizing w with
  | nil => exact h
  | cons event events ih => exact ih (whole_step h event)

/-- The collection is changed as if nobody iterated over it. -/
theorem run_follows (w : Readers C α) (events : List (Event C)) :
    ((w.run events).cell, (w.run events).supply) = follow w.cell w.supply (acts events) := by
  induction events generalizing w with
  | nil => rfl
  | cons event events ih => cases event <;> exact ih _

/-- However an iterator and its clones are consumed, and whatever is done with the collection: at
every moment each of them has gone through part of what the collection was when the first was made,
and has the rest before it. A clone starts where the original stands, and from then on each is moved
by its own calls only. -/
theorem run_isolated {make : CopyOnWrite C → Snapshot α} {shows : CopyOnWrite C → List α → Prop}
    (hmakes : Makes make shows) (cell : CopyOnWrite C) (s : Supply) (events : List (Event C)) :
    let w := (ofIterator make cell s).run events
    shows cell (make cell).items ∧
      (w.cell, w.supply) = follow cell s (acts events) ∧
      w.draws[0]? = some ((Draws.start (make cell)).run (asked 0 events)) ∧
      (∀ d ∈ w.draws, d.Exact (make cell).items) ∧
      ∀ i d, w.draws[i]? = some d →
        (w.step (.clone i)).draws[w.draws.length]? = some d ∧
          (∀ later, (w.run later).draws[i]? = some (d.run (asked i later))) ∧
          (d.rest.size = 0 → ∀ later, (w.run later).draws[i]? = some d) := by
  intro w
  have hstart : ∀ d ∈ (ofIterator make cell s).draws, d.whole = (make cell).items := by
    intro d hd
    rw [List.mem_singleton.1 hd]
    exact List.append_nil _
  refine ⟨hmakes.shows cell, run_follows _ events, run_draws rfl events,
    fun d hd => Draws.exact_of_whole (whole_run hstart events d hd), fun i d hd =>
      ⟨step_clone hd, fun later => run_draws hd later, fun hspent later => ?_⟩⟩
  rw [run_draws hd later, Draws.run_of_size_eq_zero hspent]

/-- The keys of a part are gone through by an iterator and a clone of it, while the map is
cleared. -/
theorem run_isolated_cleared :
    let m : CowMap (SortedMap Nat Nat) :=
      ⟨⟨0, MapStore.ofList [(1, 7), (2, 8), (3, 9), (4, 7)]⟩, .plain, 0⟩
    let events : List (Event (SortedMap Nat Nat)) :=
      [.take 0 .front, .clone 0, .call fun m s => (CowMap.clear m s).called, .take 1 .back,
        .take 0 .back, .take 0 .front]
    let w := (ofIterator (SubMap.keys (SubMap.headOf 4)) m {}).run events
    Through (plainPart (SubMap.headOf 4)) Prod.fst m [1, 2, 3] ∧
      w.cell.contents.entries = [] ∧
      w.draws = [⟨[1, 2], [3], ⟨[]⟩⟩, ⟨[1], [3], ⟨[2]⟩⟩] ∧
      ∀ d ∈ w.draws, d.Exact [1, 2, 3] := by
  intro m events w
  have hrun := run_isolated (.partKeys (SubMap.headOf 4)) m {} events
  exact ⟨hrun.1, rfl, rfl, hrun.2.2.2.1⟩

end Readers

end SharedCells
