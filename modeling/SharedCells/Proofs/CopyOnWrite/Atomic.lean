import Mathlib.Algebra.Group.Nat.Defs
import SharedCells.CowMap.EntrySet
import SharedCells.CowMap.KeySet
import SharedCells.CowMap.SubMap
import SharedCells.CowMap.Values
import SharedCells.CowSet
import SharedCells.Proofs.CopyOnWrite.Race

/-!
# Calls on a cell are atomic

Whatever user code a call runs, and wherever that panics or fails, the call either leaves the cell
as it was or publishes one new allocation and counts it.

* `Offered` lists the calls that cells, maps, views of maps and sets offer; a flag tells whether a
  call writes when it returns normally.
* `Ends` lists the three ends of a call, and `Offered.ends` says that every call comes to one.
* `all_end`: writes that fail give the lock back, so the next one is admitted.
* `run_atomic` is the result, for every run of calls.
-/

namespace SharedCells

open Store

namespace CopyOnWrite

variable {C : Type}

/-! ## Calls -/

/-- What a call leaves behind, and whether it returned normally. -/
structure Called (C : Type) where
  returned : Bool
  cell : CopyOnWrite C
  supply : Supply

/-- A call on a cell, with all that it is given. -/
abbrev Act (C : Type) := CopyOnWrite C → Supply → Called C

end CopyOnWrite

/-- A write as a call. -/
def Written.called {C ε R : Type} (w : Written C ε R) : CopyOnWrite.Called C :=
  ⟨w.result.isOk, w.cell, w.supply⟩

namespace CopyOnWrite

variable {C ε ε' R R' : Type}

/-- The calls on cells, maps and sets that may change them, with whatever they are given: copy
functions, mutations, predicates and sources may panic. The flag tells whether a call that returns
normally has written. Reads do not matter; what other cells draw from the common supply does. -/
inductive Offered : {C : Type} → Bool → Act C → Prop
  | elsewhere {C : Type} (copies allocations : Nat) : Offered (C := C) false fun cell s =>
      ⟨true, cell, ⟨s.copies + copies, s.allocations + allocations⟩⟩
  | copyCurrent {C : Type} : Offered (C := C) false fun cell s =>
      ⟨(cell.copyCurrent s).1.isOk, cell, (cell.copyCurrent s).2⟩
  | clone {C : Type} : Offered (C := C) false fun cell s =>
      ⟨(cell.clone s).1.isOk, cell, (cell.clone s).2⟩
  | write {C R : Type} (mutation : C → Except Panic (R × C)) :
    Offered true fun cell s => (cell.write s mutation).called
  | tryWrite {C R E : Type} (mutation : C → Except (Fault E) (R × C)) :
    Offered true fun cell s => (cell.tryWrite s mutation).called
  -- Maps.
  | put {M K V : Type} [MapStore M K V] (k : K) (v : V) :
    Offered (C := M) true fun m s => (CowMap.put m s k v).called
  | remove {M K V : Type} [MapStore M K V] (k : K) :
    Offered (C := M) true fun m s => (CowMap.remove m s k).called
  | putAll {M K V : Type} [MapStore M K V] (feed : Feed (K × V)) :
    Offered (C := M) true fun m s => (CowMap.putAll m s feed).called
  | clear {M K V : Type} [MapStore M K V] :
    Offered (C := M) true fun m s => (CowMap.clear m s).called
  | retain {M K V σ : Type} [MapStore M K V] (ask : σ → K × V → Except Panic (Bool × σ)) (t : σ) :
    Offered (C := M) true fun m s => (CowMap.retain m s ask t).called
  | cursorRemove {M K V α : Type} [MapStore M K V] (c : Cursor K V α) :
    Offered (C := M) true fun m s => (c.remove m s).2.called
  -- Views of maps.
  | keysRemove {M K V : Type} [MapStore M K V] (k : K) :
    Offered (C := M) true fun m s => (KeySet.remove m s k).called
  | keysRemoveAll {M K V : Type} [MapStore M K V] (feed : Feed K) :
    Offered (C := M) true fun m s => (KeySet.removeAll m s feed).called
  | keysRetain {M K V σ : Type} [MapStore M K V] (ask : σ → K → Except Panic (Bool × σ)) (t : σ) :
    Offered (C := M) true fun m s => (KeySet.retain m s ask t).called
  | keysClear {M K V : Type} [MapStore M K V] :
    Offered (C := M) true fun m s => (KeySet.clear m s).called
  | keysInsert {M K V : Type} [MapStore M K V] (k : K) :
    Offered (C := M) false fun m s => ⟨(KeySet.insert m k).isOk, m, s⟩
  | keysInsertAll {M K V : Type} [MapStore M K V] (feed : Feed K) :
    Offered (C := M) false fun m s => ⟨(KeySet.insertAll m feed).isOk, m, s⟩
  | valuesRemove {M K V : Type} [MapStore M K V] [BEq V] (v : V) :
    Offered (C := M) true fun m s => (Values.remove m s v).called
  | valuesRemoveAll {M K V : Type} [MapStore M K V] [BEq V] (vs : List V) :
    Offered (C := M) true fun m s => (Values.removeAll m s vs).called
  | valuesRetain {M K V σ : Type} [MapStore M K V] (ask : σ → V → Except Panic (Bool × σ))
    (t : σ) : Offered (C := M) true fun m s => (Values.retain m s ask t).called
  | valuesClear {M K V : Type} [MapStore M K V] :
    Offered (C := M) true fun m s => (Values.clear m s).called
  | valuesInsert {M K V : Type} [MapStore M K V] (v : V) :
    Offered (C := M) false fun m s => ⟨(Values.insert m v).isOk, m, s⟩
  | valuesInsertAll {M K V : Type} [MapStore M K V] (feed : Feed V) :
    Offered (C := M) false fun m s => ⟨(Values.insertAll m feed).isOk, m, s⟩
  | entriesRemove {M K V : Type} [MapStore M K V] [BEq V] (k : K) (v : V) :
    Offered (C := M) true fun m s => (EntrySet.remove m s k v).called
  | entriesRemoveAll {M K V : Type} [MapStore M K V] [BEq K] [BEq V] (es : List (K × V)) :
    Offered (C := M) true fun m s => (EntrySet.removeAll m s es).called
  | entriesRetain {M K V σ : Type} [MapStore M K V] (ask : σ → K × V → Except Panic (Bool × σ))
    (t : σ) : Offered (C := M) true fun m s => (EntrySet.retain m s ask t).called
  | entriesClear {M K V : Type} [MapStore M K V] :
    Offered (C := M) true fun m s => (EntrySet.clear m s).called
  | entriesInsert {M K V : Type} [MapStore M K V] (e : K × V) :
    Offered (C := M) false fun m s => ⟨(EntrySet.insert m e).isOk, m, s⟩
  | entriesInsertAll {M K V : Type} [MapStore M K V] (feed : Feed (K × V)) :
    Offered (C := M) false fun m s => ⟨(EntrySet.insertAll m feed).isOk, m, s⟩
  -- Parts of sorted maps, which write only if a key asked for lies in the range.
  | partPut {K V : Type} [LE K] [LT K] [DecidableLE K] [DecidableLT K] [Std.IsLinearOrder K]
    [Std.LawfulOrderLT K] (r : KeyRange K) (k : K) (v : V) :
    Offered true fun m s => (SubMap.put r m s k v).called
  | partRemove {K V : Type} [LE K] [LT K] [DecidableLE K] [DecidableLT K] [Std.IsLinearOrder K]
    [Std.LawfulOrderLT K] (r : KeyRange K) (k : K) :
    Offered (C := SortedMap K V) (r.contains k) fun m s => (SubMap.remove r m s k).called
  | partRemoveAll {K V : Type} [LE K] [LT K] [DecidableLE K] [DecidableLT K]
    [Std.IsLinearOrder K] [Std.LawfulOrderLT K] (r : KeyRange K) (feed : Feed K) :
    Offered (C := SortedMap K V) (feed.items.any r.contains) fun m s =>
      (SubMap.removeAll r m s feed).called
  | partClear {K V : Type} [LE K] [LT K] [DecidableLE K] [DecidableLT K] [Std.IsLinearOrder K]
    [Std.LawfulOrderLT K] (r : KeyRange K) :
    Offered (C := SortedMap K V) true fun m s => (SubMap.clear r m s).called
  | partRetain {K V σ : Type} [LE K] [LT K] [DecidableLE K] [DecidableLT K]
    [Std.IsLinearOrder K] [Std.LawfulOrderLT K] (r : KeyRange K)
    (ask : σ → K × V → Except Panic (Bool × σ)) (t : σ) :
    Offered (C := SortedMap K V) true fun m s => (SubMap.retain r m s ask t).called
  -- Sets.
  | setInsert {S α : Type} [SetStore S α] (a : α) :
    Offered (C := S) true fun c s => (CowSet.insert c s a).called
  | setRemove {S α : Type} [SetStore S α] (a : α) :
    Offered (C := S) true fun c s => (CowSet.remove c s a).called
  | setInsertAll {S α : Type} [SetStore S α] (feed : Feed α) :
    Offered (C := S) true fun c s => (CowSet.insertAll c s feed).called
  | setRemoveAll {S α : Type} [SetStore S α] (feed : Feed α) :
    Offered (C := S) true fun c s => (CowSet.removeAll c s feed).called
  | setRetain {S α σ : Type} [SetStore S α] (ask : σ → α → Except Panic (Bool × σ)) (t : σ) :
    Offered (C := S) true fun c s => (CowSet.retain c s ask t).called
  | setClear {S α : Type} [SetStore S α] :
    Offered (C := S) true fun c s => (CowSet.clear c s).called

/-! ## The ends of a call -/

inductive Ends (writes : Bool) (cell : CopyOnWrite C) (s : Supply) : Called C → Prop
  /-- It panics or gives back an error, and leaves the cell as it was. -/
  | fails {s' : Supply} : s.allocations ≤ s'.allocations → Ends writes cell s ⟨false, cell, s'⟩
  /-- It has nothing to write. -/
  | passes {s' : Supply} : writes = false → s.allocations ≤ s'.allocations →
    Ends writes cell s ⟨true, cell, s'⟩
  | publishes {s' : Supply} {c : C} : writes = true → s.allocations ≤ s'.allocations →
    Ends writes cell s ⟨true, (cell.publish s' c).1, (cell.publish s' c).2⟩

theorem allocations_copy (copier : Copier C) (s : Supply) (c : C) :
    (copier.copy s c).2.allocations = s.allocations := by
  cases copier <;> rfl

/-- A call that leaves the cell alone, whatever it draws from the supply. -/
theorem ends_of_unwritten {cell : CopyOnWrite C} {s s' : Supply} {returned : Bool}
    (h : s.allocations ≤ s'.allocations) : Ends false cell s ⟨returned, cell, s'⟩ := by
  cases returned with
  | false => exact .fails h
  | true => exact .passes rfl h

theorem attempt_ends (cell : CopyOnWrite C) (s : Supply) (raise : Panic → ε)
    (mutation : C → Except ε (R × C)) :
    Ends true cell s (cell.attempt s raise mutation).called := by
  rcases hcopy : cell.copyCurrent s with ⟨copied, s'⟩
  have hsupply : s.allocations ≤ s'.allocations := by
    have hsame := allocations_copy cell.copier s cell.contents
    rw [show cell.copier.copy s cell.contents = (copied, s') from hcopy] at hsame
    exact Nat.le_of_eq hsame.symm
  cases copied with
  | error p =>
    rw [attempt_of_copy_error hcopy]
    exact .fails hsupply
  | ok w =>
    cases hw : mutation w with
    | error e =>
      rw [attempt_of_error hcopy hw]
      exact .fails hsupply
    | ok out =>
      rw [attempt_of_ok hcopy hw]
      exact .publishes rfl hsupply

theorem write_ends (cell : CopyOnWrite C) (s : Supply) (mutation : C → Except Panic (R × C)) :
    Ends true cell s (cell.write s mutation).called :=
  cell.attempt_ends s id mutation

/-- How a write shows its result does not matter. -/
theorem shown_ends {cell : CopyOnWrite C} {s : Supply} {w : Written C ε R}
    (h : Ends true cell s w.called) {result : Except ε' R'}
    (hresult : result.isOk = w.result.isOk) :
    Ends true cell s (Written.called ⟨result, w.cell, w.supply⟩) := by
  rw [Written.called, hresult]
  exact h

theorem isOk_map (r : Except ε R) (f : R → R') : (r.map f).isOk = r.isOk := by
  cases r <;> rfl

theorem clone_ends (cell : CopyOnWrite C) (s : Supply) :
    Ends false cell s ⟨(cell.clone s).1.isOk, cell, (cell.clone s).2⟩ := by
  refine ends_of_unwritten ?_
  have hcopies := allocations_copy cell.copier s cell.contents
  rw [clone, withCopier]
  rcases hcopy : cell.copier.copy s cell.contents with ⟨_ | c, s'⟩ <;> rw [hcopy] at hcopies
  · exact Nat.le_of_eq hcopies.symm
  · exact Nat.le_trans (Nat.le_of_eq hcopies.symm) (Nat.le_succ _)

theorem cursorRemove_ends {M K V α : Type} [MapStore M K V] (c : Cursor K V α) (m : CowMap M)
    (s : Supply) : Ends true m s (c.remove m s).2.called := by
  unfold Cursor.remove
  cases c.current with
  | none => exact .fails (Nat.le_refl _)
  | some k =>
    refine shown_ends (w := CowMap.remove m s k) (write_ends ..) ?_
    cases (CowMap.remove m s k).result <;> rfl

section Part

variable {K V : Type} [LE K] [LT K] [DecidableLE K] [DecidableLT K] [Std.IsLinearOrder K]
  [Std.LawfulOrderLT K] (r : KeyRange K) (m : CowMap (SortedMap K V)) (s : Supply)

theorem partPut_ends (k : K) (v : V) : Ends true m s (SubMap.put r m s k v).called := by
  unfold SubMap.put
  split
  · refine shown_ends (w := CowMap.put m s k v) (write_ends ..) ?_
    cases (CowMap.put m s k v).result <;> rfl
  · exact .fails (Nat.le_refl _)

theorem partRemove_ends (k : K) : Ends (r.contains k) m s (SubMap.remove r m s k).called := by
  unfold SubMap.remove
  split
  · rename_i hin
    rw [hin]
    exact write_ends ..
  · rename_i hout
    exact .passes (Bool.not_eq_true _ ▸ hout) (Nat.le_refl _)

theorem partRemoveAll_ends (feed : Feed K) :
    Ends (feed.items.any r.contains) m s (SubMap.removeAll r m s feed).called := by
  unfold SubMap.removeAll
  cases feed.failure with
  | some p => exact .fails (Nat.le_refl _)
  | none =>
    rcases hks : feed.items.filter r.contains with _ | ⟨k, ks⟩
    · refine .passes ?_ (Nat.le_refl _)
      simpa using hks
    · have hk : k ∈ feed.items.filter r.contains := hks ▸ List.mem_cons_self
      have hany : feed.items.any r.contains = true :=
        List.any_eq_true.2 ⟨k, List.mem_filter.1 hk⟩
      rw [hany]
      exact write_ends ..

end Part

theorem Offered.ends {writes : Bool} {act : Act C} (h : Offered writes act) (cell : CopyOnWrite C)
    (s : Supply) : Ends writes cell s (act cell s) := by
  cases h with
  | elsewhere copies allocations => exact ends_of_unwritten (Nat.le_add_right _ _)
  | copyCurrent =>
    exact ends_of_unwritten (Nat.le_of_eq (allocations_copy cell.copier s cell.contents).symm)
  | clone => exact clone_ends cell s
  | tryWrite mutation => exact cell.attempt_ends s .panicked mutation
  | cursorRemove c => exact cursorRemove_ends c cell s
  | keysRemove k => exact shown_ends (write_ends ..) (isOk_map ..)
  | valuesRemoveAll vs => exact shown_ends (write_ends ..) (isOk_map ..)
  | entriesRemoveAll es => exact shown_ends (write_ends ..) (isOk_map ..)
  | partPut r k v => exact partPut_ends r cell s k v
  | partRemove r k => exact partRemove_ends r cell s k
  | partRemoveAll r feed => exact partRemoveAll_ends r cell s feed
  | partClear r => exact shown_ends (write_ends ..) (isOk_map ..)
  | keysInsert | keysInsertAll | valuesInsert | valuesInsertAll | entriesInsert
  | entriesInsertAll => exact .fails (Nat.le_refl _)
  | _ => exact write_ends ..

/-! ## Runs of calls -/

/-- The cell and the supply after some calls. -/
def follow (cell : CopyOnWrite C) (s : Supply) (acts : List (Act C)) : CopyOnWrite C × Supply :=
  acts.foldl (fun st act => ((act st.1 st.2).cell, (act st.1 st.2).supply)) (cell, s)

/-- What every call keeps to. -/
structure Atomic (writes : Bool) (cell : CopyOnWrite C) (s : Supply) (c : Called C) : Prop where
  /-- A call that panics or gives back an error leaves the cell with its allocation, its contents
  and its version. -/
  failed : c.returned = false → c.cell = cell
  /-- The next write then copies the same contents, and is published if nothing fails. -/
  usable : c.returned = false → ∀ {R : Type} (s' s'' : Supply) (w w' : C) (r : R)
    (mutation : C → Except Panic (R × C)), cell.copier.copy s' cell.contents = (.ok w, s'') →
      mutation w = .ok (r, w') → (c.cell.write s' mutation).result = .ok r ∧
        (c.cell.write s' mutation).cell.contents = w' ∧
          (c.cell.write s' mutation).cell.version = cell.version + 1
  /-- A write that returns normally publishes an allocation that nobody had before, and adds one
  to the version. -/
  written : c.returned = true → writes = true → s.allocations ≤ c.cell.published.address ∧
    c.cell.version = cell.version + 1 ∧ c.cell.copier = cell.copier
  unwritten : c.returned = true → writes = false → c.cell = cell

theorem Ends.atomic {writes : Bool} {cell : CopyOnWrite C} {s : Supply} {c : Called C}
    (h : Ends writes cell s c) : Atomic writes cell s c := by
  cases h with
  | fails hsupply =>
    refine ⟨fun _ => rfl, fun _ R s' s'' w w' r mutation hcopy hw => ?_,
      Bool.noConfusion, Bool.noConfusion⟩
    rw [write, attempt_of_ok hcopy hw]
    exact ⟨rfl, rfl, rfl⟩
  | passes hwrites hsupply =>
    refine ⟨Bool.noConfusion, Bool.noConfusion, fun _ hwrites' => ?_, fun _ _ => rfl⟩
    rw [hwrites] at hwrites'
    cases hwrites'
  | publishes hwrites hsupply =>
    refine ⟨Bool.noConfusion, Bool.noConfusion, fun _ _ => ⟨hsupply, rfl, rfl⟩,
      fun _ hwrites' => ?_⟩
    rw [hwrites] at hwrites'
    cases hwrites'

/-- How the cell of a later moment goes with that of an earlier one, at most so many calls
before. -/
structure Since (calls : Nat) (cell : CopyOnWrite C) (s : Supply) (cell' : CopyOnWrite C)
    (s' : Supply) : Prop where
  given : cell'.published.address < s'.allocations
  grows : s.allocations ≤ s'.allocations
  few : cell'.version ≤ cell.version + calls
  /-- It publishes the same allocation with the same version, or has a later version of both. -/
  published : cell'.published = cell.published ∧ cell'.version = cell.version ∨
    s.allocations ≤ cell'.published.address ∧ cell.version < cell'.version

section Since

variable {cell cell₁ cell₂ : CopyOnWrite C} {s s₁ s₂ : Supply}

theorem Ends.since {writes : Bool} {c : Called C} (h : Ends writes cell s c)
    (hgiven : cell.published.address < s.allocations) : Since 1 cell s c.cell c.supply := by
  cases h with
  | fails hsupply =>
    exact ⟨Nat.lt_of_lt_of_le hgiven hsupply, hsupply, Nat.le_succ _, Or.inl ⟨rfl, rfl⟩⟩
  | passes hwrites hsupply =>
    exact ⟨Nat.lt_of_lt_of_le hgiven hsupply, hsupply, Nat.le_succ _, Or.inl ⟨rfl, rfl⟩⟩
  | publishes hwrites hsupply =>
    exact ⟨Nat.lt_succ_self _, Nat.le_succ_of_le hsupply, Nat.le_refl _,
      Or.inr ⟨hsupply, Nat.lt_succ_self _⟩⟩

theorem Since.trans {m n : Nat} (h : Since m cell s cell₁ s₁) (h' : Since n cell₁ s₁ cell₂ s₂) :
    Since (m + n) cell s cell₂ s₂ := by
  have hgrows := Nat.le_trans h.grows h'.grows
  have hfew : cell₂.version ≤ cell.version + (m + n) := by
    have := h.few
    have := h'.few
    omega
  refine ⟨h'.given, hgrows, hfew, ?_⟩
  rcases h'.published with ⟨hsame, hversion⟩ | ⟨hnew, hversion⟩
  · rw [hsame, hversion]
    exact h.published
  · refine Or.inr ⟨Nat.le_trans h.grows hnew, ?_⟩
    rcases h.published with ⟨-, hversion'⟩ | ⟨-, hversion'⟩ <;> omega

theorem follow_since (hgiven : cell.published.address < s.allocations) {acts : List (Act C)}
    (hoffered : ∀ act ∈ acts, ∃ writes, Offered writes act) :
    Since acts.length cell s (follow cell s acts).1 (follow cell s acts).2 := by
  induction acts generalizing cell s with
  | nil => exact ⟨hgiven, Nat.le_refl _, Nat.le_refl _, Or.inl ⟨rfl, rfl⟩⟩
  | cons act acts ih =>
    obtain ⟨writes, hact⟩ := hoffered act List.mem_cons_self
    have hone := (hact.ends cell s).since hgiven
    have hrest := ih hone.given fun act' hact' => hoffered act' (List.mem_cons_of_mem act hact')
    rw [List.length_cons, Nat.add_comm]
    exact hone.trans hrest

/-- Of two moments that are not too far apart the word that counts versions tells whether the
allocation is the same. -/
theorem Since.same_iff {n : Nat} (h : Since n cell s cell₁ s₁)
    (hgiven : cell.published.address < s.allocations) :
    (cell.published.address = cell₁.published.address ↔ cell.version = cell₁.version) ∧
      (n < 2 ^ 64 → (cell.published.address = cell₁.published.address ↔
        cell.version % 2 ^ 64 = cell₁.version % 2 ^ 64)) := by
  have hfew := h.few
  rcases h.published with ⟨hsame, hversion⟩ | ⟨hnew, hversion⟩
  · rw [hsame, hversion]
    exact ⟨by simp, fun _ => by simp⟩
  · have hne : cell.published.address ≠ cell₁.published.address := by omega
    exact ⟨⟨fun h => absurd h hne, by omega⟩, fun hn => ⟨fun h => absurd h hne, by omega⟩⟩

end Since

/-! ## The lock -/

/-- A write that a thread makes step by step, as a call. -/
def Job.act (job : Job C) : Act C :=
  fun cell s => (cell.attempt s (fun _ => ()) job.mutation).called

section Act

variable {job : Job C} {cell : CopyOnWrite C} {s s' : Supply} {w w' : C}

theorem Job.act_of_copy_error {p : Panic} (hcopy : cell.copyCurrent s = (.error p, s')) :
    job.act cell s = ⟨false, cell, s'⟩ := by
  rw [act, attempt_of_copy_error hcopy]
  rfl

theorem Job.act_of_none (hcopy : cell.copyCurrent s = (.ok w, s')) (hjob : job w = none) :
    job.act cell s = ⟨false, cell, s'⟩ := by
  have hmutation : job.mutation w = .error () := by rw [mutation, hjob]
  rw [act, attempt_of_error hcopy hmutation]
  rfl

theorem Job.act_of_some (hcopy : cell.copyCurrent s = (.ok w, s')) (hjob : job w = some w') :
    job.act cell s = ⟨true, (cell.publish s' w').1, (cell.publish s' w').2⟩ := by
  have hmutation : job.mutation w = .ok ((), w') := by rw [mutation, hjob]
  rw [act, attempt_of_ok hcopy hmutation]
  rfl

end Act

namespace Race

/-- A thread that is alone ends its write as a call does, and gives the lock back, whether the
write fails or not. -/
theorem one_ends {r : Race C} {job : Job C} {jobs : List (Job C)} (hfree : r.holder = none)
    (hw : r.writers = [⟨.idle, job :: jobs⟩]) :
    ∃ n, let r' := r.run (List.replicate n 0)
      r'.holder = none ∧ r'.writers = [⟨.idle, jobs⟩] ∧
        (r'.cell, r'.supply) = follow r.cell r.supply [job.act] := by
  obtain ⟨cell, supply, holder, writers, log⟩ := r
  subst hfree hw
  rcases hcopy : cell.copyCurrent supply with ⟨_ | w, s'⟩
  · have hact : job.act cell supply = ⟨false, cell, s'⟩ := Job.act_of_copy_error hcopy
    rw [copyCurrent] at hcopy
    exact ⟨4, by simp [run, List.replicate, step, advance, goTo, release, follow, hcopy, hact]⟩
  · cases hjob : job w with
    | none =>
      have hact := Job.act_of_none hcopy hjob
      rw [copyCurrent] at hcopy
      exact ⟨5,
        by simp [run, List.replicate, step, advance, goTo, release, follow, hcopy, hjob, hact]⟩
    | some w' =>
      have hact := Job.act_of_some hcopy hjob
      rw [copyCurrent] at hcopy
      exact ⟨7, by
        simp [run, List.replicate, step, advance, goTo, release, follow, hcopy, hjob, hact,
          publish]⟩

/-- All writes of a thread that is alone are admitted, one after another. -/
theorem all_end {r : Race C} {jobs : List (Job C)} (hfree : r.holder = none)
    (hw : r.writers = [⟨.idle, jobs⟩]) :
    ∃ n, let r' := r.run (List.replicate n 0)
      r'.holder = none ∧ r'.writers = [⟨.idle, []⟩] ∧
        (r'.cell, r'.supply) = follow r.cell r.supply (jobs.map Job.act) := by
  induction jobs generalizing r with
  | nil => exact ⟨0, hfree, hw, rfl⟩
  | cons job jobs ih =>
    obtain ⟨n, hfree', hw', hcell⟩ := one_ends hfree hw
    obtain ⟨m, hfree'', hw'', hcells⟩ := ih hfree' hw'
    refine ⟨n + m, ?_⟩
    have hrun : r.run (List.replicate (n + m) 0) =
        (r.run (List.replicate n 0)).run (List.replicate m 0) := by
      rw [List.replicate_add, run, List.foldl_append]
      rfl
    rw [hrun]
    refine ⟨hfree'', hw'', hcells.trans ?_⟩
    obtain ⟨hcell, hsupply⟩ := Prod.ext_iff.1 hcell
    dsimp only at hcell hsupply
    rw [hcell, hsupply]
    rfl

end Race

/-- At every moment of a run of calls: the next call is atomic; the version tells whether the
allocation is still that of the moment; and writes are admitted one after another, whether they
fail or not, and come to what they come to at once. -/
theorem run_atomic (cell : CopyOnWrite C) (s : Supply)
    (hgiven : cell.published.address < s.allocations) (acts : List (Act C))
    (hoffered : ∀ act ∈ acts, ∃ writes, Offered writes act) (before after : List (Act C))
    (hacts : acts = before ++ after) :
    let now := follow cell s before
    (∀ act rest, after = act :: rest → ∀ writes, Offered writes act →
      Atomic writes now.1 now.2 (act now.1 now.2)) ∧
    (∀ between rest, after = between ++ rest → let later := follow cell s (before ++ between)
      (now.1.published.address = later.1.published.address ↔ now.1.version = later.1.version) ∧
        (between.length < 2 ^ 64 → (now.1.published.address = later.1.published.address ↔
          now.1.version % 2 ^ 64 = later.1.version % 2 ^ 64))) ∧
    ∀ jobs : List (Job C), ∃ n, let r := (Race.start now.1 now.2 [jobs]).run (List.replicate n 0)
      r.holder = none ∧ r.writers = [⟨.idle, []⟩] ∧
        (r.cell, r.supply) = follow now.1 now.2 (jobs.map Job.act) := by
  intro now
  subst hacts
  have hbefore := follow_since hgiven fun act hact =>
    hoffered act (List.mem_append_left after hact)
  refine ⟨fun act rest _ writes hact => (hact.ends now.1 now.2).atomic,
    fun between rest hrest => ?_, fun jobs => Race.all_end rfl rfl⟩
  have hmid : ∀ act ∈ between, ∃ writes, Offered writes act := fun act hact =>
    hoffered act (List.mem_append_right before (hrest ▸ List.mem_append_left rest hact))
  have hbetween := follow_since hbefore.given hmid
  have hlater : follow now.1 now.2 between = follow cell s (before ++ between) :=
    List.foldl_append.symm
  rw [← hlater]
  exact hbetween.same_iff hbefore.given

/-- After a write the copy function panics once and a source panics half way; then a key that is
not there is removed. -/
theorem run_atomic_failing_calls :
    let m : CowMap (SortedMap Nat Nat) :=
      ⟨⟨0, MapStore.empty⟩, .custom fun n c => if n = 2 then .error ⟨"copier"⟩ else .ok c, 0⟩
    let source : Feed (Nat × Nat) := ⟨[(1, 5)], some ⟨"source"⟩⟩
    let before : List (Act (SortedMap Nat Nat)) :=
      [fun m s => (CowMap.put m s 1 4).called, fun m s => (CowMap.remove m s 1).called,
        fun m s => (CowMap.putAll m s source).called]
    let last : Act (SortedMap Nat Nat) := fun m s => (CowMap.remove m s 9).called
    let now := follow m ⟨0, 1⟩ before
    let later := follow m ⟨0, 1⟩ (before ++ [last])
    m.published.address < 1 ∧ (∀ act ∈ before ++ [last], ∃ writes, Offered writes act) ∧
      now.1.contents.entries = [(1, 4)] ∧ now.1.version = 1 ∧ later.1.version = 2 ∧
      Atomic true now.1 now.2 (last now.1 now.2) ∧
      (now.1.published.address = later.1.published.address ↔ now.1.version = later.1.version) := by
  intro m source before last now later
  have hoffered : ∀ act ∈ before ++ [last], ∃ writes, Offered writes act := by
    simp only [before, List.cons_append, List.nil_append, List.forall_mem_cons, List.not_mem_nil,
      false_implies, implies_true, and_true]
    exact ⟨⟨_, .put 1 4⟩, ⟨_, .remove 1⟩, ⟨_, .putAll source⟩, ⟨_, .remove 9⟩⟩
  have hrun := run_atomic m ⟨0, 1⟩ (by decide) _ hoffered before [last] rfl
  exact ⟨by decide, hoffered, rfl, rfl, rfl, hrun.1 last [] rfl true (.remove 9),
    (hrun.2.1 [last] [] rfl).1⟩

end CopyOnWrite

end SharedCells
