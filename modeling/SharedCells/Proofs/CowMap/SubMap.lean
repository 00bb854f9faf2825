import SharedCells.CowMap.SubMap
import SharedCells.Descending
import SharedCells.Proofs.CopyOnWrite.Writes
import SharedCells.Proofs.CowMap.Bulk
import SharedCells.Proofs.CowMap.Operations
import SharedCells.Proofs.Store.Range

/-!
# Parts of sorted maps

The part of a sorted map in a range acts like the plain map that has the entries of the range
only. `Reads` says so for what the part answers, and `Writes` for what it does to the map, when
it publishes and when it does not. Both hold for every range, whatever its bounds, so for every
range that a chain of views can have.
-/

namespace SharedCells.SubMap

open Store CopyOnWrite

variable {K V : Type} [LE K] [LT K] [DecidableLE K] [DecidableLT K]

/-! ## What is expected -/

/-- The plain map that has the entries of a range only. -/
def part (r : KeyRange K) (m : Plain K V) : Plain K V := fun k => if r.contains k then m k else none

/-- The least key of a plain map. -/
def IsLeast (m : Plain K V) (k : K) : Prop := (m k).isSome ∧ ∀ k', (m k').isSome → k ≤ k'

/-- The greatest key of a plain map. -/
def IsGreatest (m : Plain K V) (k : K) : Prop := (m k).isSome ∧ ∀ k', (m k').isSome → k' ≤ k

/-- A working copy has another value under a key, or none, and is otherwise as before; the result
is what was there. -/
def Replaced (k : K) (now : Option V) (w : SortedMap K V)
    (out : Except Panic (Option V × SortedMap K V)) : Prop :=
  ∃ w', out = .ok (w.lookup k, w') ∧ w'.lookup k = now ∧ ∀ k', k' ≠ k → w'.lookup k' = w.lookup k'

/-- A working copy loses the entries of a range, and nothing else. -/
def Cleared (r : KeyRange K) (w : SortedMap K V) (out : Except Panic (Unit × SortedMap K V)) :
    Prop :=
  ∃ w', out = .ok ((), w') ∧ ∀ k, w'.lookup k = if r.contains k then none else w.lookup k

/-- A working copy loses the entries of those keys of a list that lie in a range, and nothing
else; the result tells whether there were any. -/
def Removed (r : KeyRange K) (ks : List K) (w : SortedMap K V)
    (out : Except Panic (Bool × SortedMap K V)) : Prop :=
  ∃ b w', out = .ok (b, w') ∧
    (∀ k v, w'.lookup k = some v ↔ w.lookup k = some v ∧ ¬ (r.contains k ∧ k ∈ ks)) ∧
    (b = true ↔ Plain.Loses w.lookup w'.lookup)

/-- A predicate is asked once about each entry in a range, in ascending order, and about no
other; those that it keeps are left in the range, and all are left outside. -/
def Retained {σ : Type} (r : KeyRange K) (ask : σ → K × V → Except Panic (Bool × σ)) (t : σ)
    (w : SortedMap K V) : Except Panic ((Bool × σ) × SortedMap K V) → Prop
  | .error p => ∃ es, (part r w.lookup).Lists (· < ·) es ∧ Asks ask t es (.error p)
  | .ok ((b, u), w') =>
    ∃ es kept, (part r w.lookup).Lists (· < ·) es ∧ Asks ask t es (.ok (kept, u)) ∧
      (part r w'.lookup).Holds kept ∧ (∀ k, r.contains k = false → w'.lookup k = w.lookup k) ∧
      (b = true ↔ Plain.Loses w.lookup w'.lookup)

variable [Std.IsLinearOrder K] [Std.LawfulOrderLT K]

/-- The reads of a part answer what the plain map does that has the entries of the range only. -/
structure Reads (r : KeyRange K) (m : CowMap (SortedMap K V)) : Prop where
  get : ∀ k, get? r m k = part r m.plain k
  contains : ∀ k, contains r m k = (part r m.plain k).isSome
  iter : (part r m.plain).Lists (· < ·) (iter r m).items
  keys : (keys r m).items = (SubMap.iter r m).items.map Prod.fst
  values : (values r m).items = (SubMap.iter r m).items.map Prod.snd
  size : size r m = (SubMap.iter r m).items.length
  isEmpty : isEmpty r m = true ↔ ∀ k, part r m.plain k = none
  firstKey : ∀ k, firstKey r m = some k ↔ IsLeast (part r m.plain) k
  lastKey : ∀ k, lastKey r m = some k ↔ IsGreatest (part r m.plain) k
  noKeys : (SubMap.firstKey r m = none ↔ ∀ k, part r m.plain k = none) ∧
    (SubMap.lastKey r m = none ↔ ∀ k, part r m.plain k = none)

/-- The writes of a part act on the entries of the range only. -/
structure Writes (r : KeyRange K) (m : CowMap (SortedMap K V)) (s : Supply) : Prop where
  /-- A key outside is refused, and nothing is published. -/
  put_outside : ∀ k v, r.contains k = false →
    put r m s k v = ⟨.error (.rejected .keyOutOfRange), m, s⟩
  /-- A key inside is put as in the whole map, where no other key is touched. -/
  put_inside : ∀ k v, r.contains k = true →
    put r m s k v =
      ⟨(m.put s k v).result.mapError .panicked, (m.put s k v).cell, (m.put s k v).supply⟩ ∧
    Commits m s (Replaced k (some v)) (m.put s k v)
  /-- A key outside is not removed, and nothing is published. -/
  remove_outside : ∀ k, r.contains k = false → remove r m s k = ⟨.ok none, m, s⟩
  /-- A key inside is removed as from the whole map, where no other key is touched. -/
  remove_inside : ∀ k, r.contains k = true →
    remove r m s k = m.remove s k ∧ Commits m s (Replaced k none) (m.remove s k)
  /-- A source that panics stops a removal before anything is copied. -/
  removeAll_panics : ∀ feed p, feed.failure = some p → removeAll r m s feed = ⟨.error p, m, s⟩
  /-- Without a key inside nothing is published. -/
  removeAll_outside : ∀ feed, feed.failure = none → (∀ k ∈ feed.items, r.contains k = false) →
    removeAll r m s feed = ⟨.ok false, m, s⟩
  /-- With a key inside the listed entries of the range are removed, with one publication. -/
  removeAll_inside : ∀ feed, feed.failure = none → (∃ k ∈ feed.items, r.contains k = true) →
    Commits m s (Removed r feed.items) (removeAll r m s feed)
  /-- The entries of the range are dropped, with one publication. -/
  clear : Commits m s (Cleared r) (clear r m s)
  /-- The entries of the range are asked about, with one publication. -/
  retain : ∀ {σ : Type} (ask : σ → K × V → Except Panic (Bool × σ)) (t : σ),
    Commits m s (Retained r ask t) (retain r m s ask t)

/-! ## Reads -/

theorem lists_part (r : KeyRange K) (w : SortedMap K V) :
    (part r w.lookup).Lists (· < ·) (w.entries.filter fun e => r.contains e.1) := by
  refine w.lists.sublist List.filter_sublist fun k v => ?_
  rw [List.mem_filter, ← w.holds k v, part]
  cases r.contains k <;> simp

theorem entries_eq_filter (r : KeyRange K) (m : CowMap (SortedMap K V)) :
    entries r m = m.contents.entries.filter fun e => r.contains e.1 :=
  m.contents.range_eq_filter r.lower r.upper

theorem lists_entries (r : KeyRange K) (m : CowMap (SortedMap K V)) :
    (part r m.plain).Lists (· < ·) (entries r m) := by
  rw [entries_eq_filter]
  exact lists_part r m.contents

theorem reads (r : KeyRange K) (m : CowMap (SortedMap K V)) : Reads r m := by
  have hlists := lists_entries r m
  have hasymm : ∀ a b : K, a < b → ¬ b < a := fun a b hab => Std.not_lt.2 (Std.le_of_lt hab)
  have hnone : (entries r m).head? = none ↔ ∀ k, part r m.plain k = none :=
    List.head?_eq_none_iff.trans hlists.eq_nil_iff
  refine ⟨fun k => rfl, fun k => ?_, hlists, rfl, rfl, rfl, ?_, fun k => ?_, fun k => ?_, ?_, ?_⟩
  · show (r.contains k && (m.plain k).isSome) = _
    rw [part]
    cases r.contains k <;> rfl
  · rw [isEmpty, Option.isNone_iff_eq_none, hnone]
  · refine (hlists.head?_keys_iff hasymm).trans
      (and_congr_right fun _ => forall_congr' fun k' => ?_)
    rw [Std.le_iff_lt_or_eq, or_comm, @eq_comm K k']
  · refine (hlists.getLast?_keys_iff hasymm).trans
      (and_congr_right fun _ => forall_congr' fun k' => ?_)
    rw [Std.le_iff_lt_or_eq, or_comm]
  · rw [firstKey, Option.map_eq_none_iff, hnone]
  · rw [lastKey, Option.map_eq_none_iff, List.getLast?_eq_none_iff, hlists.eq_nil_iff]

/-! ## Writes -/

/-- A predicate that is asked about the members that pass a test; the others are kept. -/
def within {σ α : Type} (p : α → Bool) (ask : σ → α → Except Panic (Bool × σ)) (t : σ) (a : α) :
    Except Panic (Bool × σ) :=
  if p a then ask t a else .ok (true, t)

section Within

variable {σ α : Type} {ask : σ → α → Except Panic (Bool × σ)} {p : α → Bool} {t : σ} {as : List α}

theorem within_of_false {a : α} (ha : p a = false) : within p ask t a = .ok (true, t) := by
  rw [within, ha]
  rfl

theorem within_of_true {a : α} (ha : p a = true) : within p ask t a = ask t a := by
  rw [within, ha]
  rfl

theorem asks_within_error {e : Panic} (h : Asks ask t (as.filter p) (.error e)) :
    Asks (within p ask) t as (.error e) := by
  induction as generalizing t with
  | nil => cases h
  | cons a as ih =>
    cases ha : p a with
    | false =>
      rw [List.filter_cons_of_neg (by simp [ha])] at h
      exact .panicsLater (within_of_false ha) (ih h)
    | true =>
      rw [List.filter_cons_of_pos ha] at h
      cases h with
      | panics hask => exact .panics ((within_of_true ha).trans hask)
      | panicsLater hask hrest =>
        exact .panicsLater ((within_of_true ha).trans hask) (ih hrest)

/-- Asking about the members that pass a test leaves those kept and all that do not pass. -/
theorem asks_within {kept : List α} {u : σ} (h : Asks ask t (as.filter p) (.ok (kept, u))) :
    ∃ all, Asks (within p ask) t as (.ok (all, u)) ∧ all.filter p = kept ∧
      (all.filter fun a => !p a) = as.filter fun a => !p a := by
  induction as generalizing t kept with
  | nil =>
    cases h
    exact ⟨[], .done _, rfl, rfl⟩
  | cons a as ih =>
    cases ha : p a with
    | false =>
      rw [List.filter_cons_of_neg (by simp [ha])] at h
      obtain ⟨all, hall, hkept, hothers⟩ := ih h
      refine ⟨a :: all, .keeps (within_of_false ha) hall, ?_, ?_⟩
      · rw [List.filter_cons_of_neg (by simp [ha]), hkept]
      · rw [List.filter_cons_of_pos (by simp [ha]), List.filter_cons_of_pos (by simp [ha]),
          hothers]
    | true =>
      rw [List.filter_cons_of_pos ha] at h
      cases h with
      | keeps hask hrest =>
        obtain ⟨all, hall, hkept, hothers⟩ := ih hrest
        refine ⟨a :: all, .keeps ((within_of_true ha).trans hask) hall, ?_, ?_⟩
        · rw [List.filter_cons_of_pos ha, hkept]
        · rw [List.filter_cons_of_neg (by simp [ha]), List.filter_cons_of_neg (by simp [ha]),
            hothers]
      | drops hask hrest =>
        obtain ⟨all, hall, hkept, hothers⟩ := ih hrest
        refine ⟨all, .drops ((within_of_true ha).trans hask) hall, hkept, ?_⟩
        rw [List.filter_cons_of_neg (by simp [ha]), hothers]

end Within

variable [DecidableEq K]

theorem put_commits (m : CowMap (SortedMap K V)) (s : Supply) (k : K) (v : V) :
    Commits m s (Replaced k (some v)) (m.put s k v) := by
  refine write_commits m s fun w => ⟨w.insert k v, rfl, ?_, fun k' hk => ?_⟩
  · rw [w.lookup_insert, Plain.put, if_pos rfl]
  · rw [w.lookup_insert, Plain.put, if_neg hk]

omit [DecidableLE K] in
theorem remove_commits (m : CowMap (SortedMap K V)) (s : Supply) (k : K) :
    Commits m s (Replaced k none) (m.remove s k) := by
  refine write_commits m s fun w => ⟨w.erase k, rfl, ?_, fun k' hk => ?_⟩
  · rw [w.lookup_erase, Plain.remove, if_pos rfl]
  · rw [w.lookup_erase, Plain.remove, if_neg hk]

theorem clear_commits (r : KeyRange K) (m : CowMap (SortedMap K V)) (s : Supply) :
    Commits m s (Cleared r) (clear r m s) := by
  refine (write_commits m s (Q := fun w out => ∃ b w', out = .ok (b, w') ∧
    ∀ k, w'.lookup k = if r.contains k then none else w.lookup k) fun w => ?_).map _ ?_ ?_
  · obtain ⟨b, w', hok, hholds, -⟩ :=
      CowMap.retain_mutation (w := w)
        (CowMap.asks_keeping (fun e => !r.contains e.1) w.entries)
    refine ⟨_, w', hok, fun k => Option.ext fun v => (hholds k v).trans ?_⟩
    rw [List.mem_filter, ← w.holds k v]
    cases r.contains k <;> simp
  · rintro w p ⟨b, w', h, -⟩
    cases h
  · rintro w b w' ⟨b', w'', h, hlookup⟩
    cases h
    exact ⟨w', rfl, hlookup⟩

theorem retain_commits {σ : Type} (r : KeyRange K) (m : CowMap (SortedMap K V)) (s : Supply)
    (ask : σ → K × V → Except Panic (Bool × σ)) (t : σ) :
    Commits m s (Retained r ask t) (retain r m s ask t) := by
  show Commits m s _ (m.retain s (within (fun e => r.contains e.1) ask) t)
  refine write_commits m s fun w => ?_
  have hlists := lists_part r w
  have hasks : Asks ask t (w.entries.filter fun e => r.contains e.1) _ := asks_sift t _
  cases hout : sift ask t (w.entries.filter fun e => r.contains e.1) with
  | error p =>
    rw [hout] at hasks
    rw [CowMap.retain_mutation_error (asks_within_error hasks)]
    exact ⟨_, hlists, hasks⟩
  | ok out =>
    obtain ⟨kept, u⟩ := out
    rw [hout] at hasks
    obtain ⟨all, hall, hkept, hothers⟩ := asks_within hasks
    obtain ⟨b, w', hok, hholds, hflag⟩ := CowMap.retain_mutation (w := w) hall
    rw [hok]
    refine ⟨_, kept, hlists, hasks, fun k v => ?_, fun k hk => Option.ext fun v => ?_, hflag⟩
    · have hin := hholds k v
      rw [← hkept, List.mem_filter, ← hin, part]
      cases hr : r.contains k
      · simp
      · simp only [if_true, and_true]
        rfl
    · have hmem : (k, v) ∈ all ↔ (k, v) ∈ w.entries := by
        have h := congrArg ((k, v) ∈ ·) hothers
        simpa [hk] using h
      exact (hholds k v).trans (hmem.trans (w.holds k v).symm)

omit [DecidableLE K] [DecidableEq K] in
theorem foldl_erase_eq (p : Bool × SortedMap K V) (ks : List K) :
    ks.foldl (fun p k => ((MapStore.erase p.2 k).2.isSome || p.1, (MapStore.erase p.2 k).1)) p =
      CowMap.eraseAll p ks := by
  refine List.foldl_ext _ _ _ fun p k _ => ?_
  exact Prod.ext (Bool.or_comm _ _) rfl

omit [DecidableEq K] in
theorem removeAll_outside (r : KeyRange K) (m : CowMap (SortedMap K V)) (s : Supply)
    {feed : Feed K} (hfeed : feed.failure = none)
    (hout : ∀ k ∈ feed.items, r.contains k = false) :
    removeAll r m s feed = ⟨.ok false, m, s⟩ := by
  have hks : feed.items.filter r.contains = [] :=
    List.filter_eq_nil_iff.2 fun k hk => by simp [hout k hk]
  simp only [removeAll, hfeed, hks]

omit [DecidableEq K] in
/-- With a key of the range among those asked for, all of these are erased in one write. -/
theorem removeAll_inside (r : KeyRange K) (m : CowMap (SortedMap K V)) (s : Supply)
    {feed : Feed K} (hfeed : feed.failure = none) (hin : ∃ k ∈ feed.items, r.contains k = true) :
    removeAll r m s feed =
      m.write s fun w => .ok (CowMap.eraseAll (false, w) (feed.items.filter r.contains)) := by
  have hks : feed.items.filter r.contains ≠ [] := by
    obtain ⟨k, hk, hr⟩ := hin
    exact List.ne_nil_of_mem (List.mem_filter.2 ⟨hk, hr⟩)
  simp only [removeAll, hfeed, foldl_erase_eq]

theorem removeAll_commits (r : KeyRange K) (m : CowMap (SortedMap K V)) (s : Supply)
    {feed : Feed K} (hfeed : feed.failure = none) (hin : ∃ k ∈ feed.items, r.contains k = true) :
    Commits m s (Removed r feed.items) (removeAll r m s feed) := by
  rw [removeAll_inside r m s hfeed hin]
  refine write_commits m s fun w => ?_
  refine ⟨_, _, rfl, fun k v => ?_, (CowMap.eraseAll_flag (false, w) _).trans (by simp; rfl)⟩
  refine (CowMap.lookup_eraseAll_eq_some_iff (p := (false, w))).trans
    (and_congr_right fun _ => not_congr ?_)
  exact List.mem_filter.trans and_comm

theorem writes (r : KeyRange K) (m : CowMap (SortedMap K V)) (s : Supply) : Writes r m s where
  put_outside k v hk := by simp [put, hk]
  put_inside k v hk := by
    refine ⟨?_, put_commits m s k v⟩
    simp only [put, hk, if_true]
    cases (m.put s k v).result <;> rfl
  remove_outside k hk := by simp [remove, hk]
  remove_inside k hk := ⟨by simp [remove, hk], remove_commits m s k⟩
  removeAll_panics feed p hfeed := by simp only [removeAll, hfeed]
  removeAll_outside feed := removeAll_outside r m s
  removeAll_inside feed := removeAll_commits r m s
  clear := clear_commits r m s
  retain ask t := retain_commits r m s ask t

/-- The part of a sorted map in any range is confined to it: it answers from the entries of the
range, changes no others, and publishes once, or not at all where it has nothing to do. -/
theorem confined (r : KeyRange K) (m : CowMap (SortedMap K V)) (s : Supply) :
    Reads r m ∧ Writes r m s :=
  ⟨reads r m, writes r m s⟩

omit [LE K] [LT K] [DecidableLE K] [DecidableLT K] [Std.IsLinearOrder K] [Std.LawfulOrderLT K]
  [DecidableEq K] in
/-- Equal bounds that leave their key out make a range without keys, and a reversed order turns
the ends of a range round. -/
theorem confined_examples :
    let m : CowMap (SortedMap Nat Nat) := ⟨⟨0, MapStore.ofList [(1, 7), (2, 8)]⟩, .plain, 0⟩
    let d : CowMap (SortedMap (Descending Nat) Nat) :=
      ⟨⟨0, MapStore.ofList [(⟨1⟩, 7), (⟨2⟩, 8)]⟩, .plain, 0⟩
    (entries ⟨.excluded 2, .excluded 2⟩ m = [] ∧
        Reads ⟨.excluded 2, .excluded 2⟩ m ∧ Writes ⟨.excluded 2, .excluded 2⟩ m {}) ∧
      (entries (tailOf ⟨1⟩) d = [(⟨1⟩, 7)] ∧ Reads (tailOf ⟨1⟩) d ∧ Writes (tailOf ⟨1⟩) d {}) :=
  ⟨⟨rfl, confined _ _ _⟩, rfl, confined _ _ _⟩

end SharedCells.SubMap
