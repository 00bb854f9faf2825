import SharedCells.Proofs.CopyOnWrite.Writes
import SharedCells.Proofs.CowMap.Bulk
import SharedCells.Proofs.CowMap.Operations

/-!
# A copy-on-write map acts like a plain map

Over a lawful store, with a faithful copy function, every operation on a copy-on-write map and on
its views gives what it gives on a plain map, leaves the content that it leaves there, and counts
one version exactly if it writes.

`Realizes` is what one operation has to keep to, and `performAll_follows` the result for any
sequence of operations.
-/

namespace SharedCells.CowMap

open Store CopyOnWrite

variable {M K V : Type} [MapStore M K V]

/-- Two stores that hold the same value under every key. -/
def Alike (w c : M) : Prop := MapStore.lookup w = MapStore.lookup c

/-! ## Asking predicates that never panic -/

section Total

variable {σ α : Type}

theorem asks_total (ask : σ → α → Bool × σ) (t : σ) (as : List α) :
    ∃ kept u, Asks (total ask) t as (.ok (kept, u)) := by
  induction as generalizing t with
  | nil => exact ⟨[], t, .done t⟩
  | cons a as ih =>
    obtain ⟨kept, u, h⟩ := ih (ask t a).2
    cases hask : (ask t a).1
    · exact ⟨kept, u, .drops (congrArg Except.ok (Prod.ext hask rfl)) h⟩
    · exact ⟨a :: kept, u, .keeps (congrArg Except.ok (Prod.ext hask rfl)) h⟩

end Total

variable [DecidableEq K] {before : K → K → Prop} [laws : LawfulMapStore M before]

include laws

/-! ## What one operation has to keep to -/

omit laws [DecidableEq K] [MapStore M K V] in
theorem writing_map {R R' : Type} (shown : R' → Result K V) (f : R → R') (w : Written M Panic R) :
    Performed.writing shown { w with result := w.result.map f } =
      Performed.writing (shown ∘ f) w := by
  unfold Performed.writing
  cases w.result <;> rfl

/-- What an operation leaves behind is what a relation between a plain map, a result and another
plain map asks for; the version counts it exactly if it writes. -/
def Realizes (Q : Plain K V → Result K V → Plain K V → Prop) (writes : Bool) (m : CowMap M)
    (p : Performed M K V) : Prop :=
  Q m.plain p.result p.map.plain ∧
    p.map.version = (if writes then m.version + 1 else m.version) ∧ p.map.copier = m.copier

omit laws [DecidableEq K] in
theorem realizes_reading {Q : Plain K V → Result K V → Plain K V → Prop} {m : CowMap M}
    {s : Supply} {r : Result K V} (h : Q m.plain r m.plain) :
    Realizes Q false m (.reading m s r) := ⟨h, rfl, rfl⟩

omit laws [DecidableEq K] in
/-- A write of a map with a faithful copy function does to the plain map what its mutation does
to every store. -/
theorem realizes_writing {R : Type} {Q : Plain K V → Result K V → Plain K V → Prop}
    {m : CowMap M} (hm : m.copier.Faithful Alike) (s : Supply) {shown : R → Result K V}
    {mutation : M → Except Panic (R × M)}
    (h : ∀ w, ∃ r w', mutation w = .ok (r, w') ∧
      Q (MapStore.lookup w) (shown r) (MapStore.lookup w')) :
    Realizes Q true m (.writing shown (m.write s mutation)) := by
  have hcopy : ∀ w, Alike w m.contents → ∃ r w', mutation w = .ok (r, w') ∧
      Q m.plain (shown r) (MapStore.lookup w') := by
    intro w hw
    obtain ⟨r, w', hok, hQ⟩ := h w
    have hplain : MapStore.lookup w = m.plain := hw
    rw [hplain] at hQ
    exact ⟨r, w', hok, hQ⟩
  obtain ⟨r, hr, hQ, hversion, hcopier⟩ := write_of_faithful hm (fun _ => rfl) s hcopy
  refine ⟨?_, hversion, hcopier⟩
  simp only [Performed.writing, hr]
  exact hQ

theorem lists_plain (m : CowMap M) : m.plain.Lists before m.entries :=
  LawfulMapStore.lists m.contents

theorem counts_size (m : CowMap M) : Counts before m.plain (.count m.size) :=
  ⟨m.entries, lists_plain m, congrArg Result.count (LawfulMapStore.size_eq m.contents)⟩

theorem tellsEmpty_isEmpty (m : CowMap M) : TellsEmpty m.plain (.flag m.isEmpty) := by
  refine ⟨m.isEmpty, rfl, ?_⟩
  rw [← (lists_plain m).eq_nil_iff, isEmpty, size, LawfulMapStore.size_eq, beq_iff_eq,
    List.length_eq_zero_iff]
  rfl

/-! ## Writes -/

section Writes

variable {m : CowMap M} (hm : m.copier.Faithful Alike) (s : Supply)

include hm

theorem put_realizes (k : K) (v : V) :
    Realizes (fun m r m' => r = .value (m k) ∧ m' = m.put k v) true m
      (.writing .value (m.put s k v)) := by
  refine realizes_writing hm s fun w =>
    ⟨(MapStore.insert w k v).2, (MapStore.insert w k v).1, rfl, ?_, ?_⟩
  · rw [LawfulMapStore.insert_previous]
  · exact LawfulMapStore.lookup_insert w k v

theorem remove_realizes (k : K) :
    Realizes (fun m r m' => r = .value (m k) ∧ m' = m.remove k) true m
      (.writing .value (CowMap.remove m s k)) := by
  refine realizes_writing hm s fun w =>
    ⟨(MapStore.erase w k).2, (MapStore.erase w k).1, rfl, ?_, ?_⟩
  · rw [LawfulMapStore.erase_previous]
  · exact LawfulMapStore.lookup_erase w k

theorem putAll_realizes (es : List (K × V)) :
    Realizes (fun m r m' => r = .done ∧ m' = m.putAll es) true m
      (.writing (fun _ => .done) (m.putAll s (.ofList es))) :=
  realizes_writing hm s fun w => ⟨_, _, rfl, rfl, lookup_insertAll w es⟩

theorem clear_realizes :
    Realizes (fun _ r m' => r = .done ∧ m' = Plain.empty) true m
      (.writing (fun _ => .done) (CowMap.clear m s)) :=
  realizes_writing hm s fun w => ⟨_, _, rfl, rfl, LawfulMapStore.lookup_clear w⟩

theorem retain_realizes {σ α : Type} (shown : K × V → α) (ask : σ → α → Bool × σ) (t : σ) :
    Realizes (Retains before shown ask t) true m
      (.writing .ofRetain (CowMap.retain m s (total fun t e => ask t (shown e)) t)) := by
  refine realizes_writing hm s fun w => ?_
  obtain ⟨kept, u, hasks⟩ := asks_total (fun t e => ask t (shown e)) t (MapStore.entries w)
  obtain ⟨b, w', hok, hholds, hflag⟩ := retain_mutation hasks
  exact ⟨(b, u), w', hok, _, kept, u, b, LawfulMapStore.lists w, hasks, hholds, rfl, hflag⟩

/-- A removal of all items of a list drops the entries that a test does not keep. -/
theorem sweep_realizes {α : Type} (facet : Facet K V α) (as : List α) {keep : K × V → Bool}
    (hkeep : ∀ e, keep e = true ↔ ∀ a ∈ as, ¬ facet.covers a e) :
    Realizes (fun m r m' => (ViewOp.removeAll as).Means facet before m r m') true m
      (.writing .flag (CowMap.retain m s (keeping keep) ()).changed) := by
  rw [Written.changed, writing_map]
  refine realizes_writing hm s fun w => ?_
  obtain ⟨b, w', hok, hholds, hflag⟩ := retain_mutation (asks_keeping keep (MapStore.entries w))
  refine ⟨(b, ()), w', hok, ⟨b, rfl, hflag⟩, fun k v => ?_⟩
  rw [hholds, List.mem_filter, (LawfulMapStore.lists w).mem_iff, hkeep]

end Writes

/-! ## Removals through the views -/

section Removals

variable {m : CowMap M} (hm : m.copier.Faithful Alike) (s : Supply)

omit laws in
theorem flags_remove (m : Plain K V) (k : K) : Flags m (.flag (m k).isSome) (m.remove k) :=
  ⟨(m k).isSome, rfl, (Plain.loses_remove_iff m k).symm⟩

omit laws [DecidableEq K] in
theorem flags_self (m : Plain K V) : Flags m (.flag false) m :=
  ⟨false, rfl, by simp [Plain.not_loses_self]⟩

omit laws in
theorem discards_key (m : Plain K V) (k : K) : Discards keyFacet before k m (m.remove k) := by
  cases h : m k with
  | none =>
    refine Or.inr ⟨?_, Plain.remove_of_none h⟩
    intro k' v' h' hfits
    have hk : k' = k := hfits
    rw [hk, h] at h'
    cases h'
  | some v => exact Or.inl ⟨k, v, h, rfl, fun k' v' _ hfits => Or.inl hfits, rfl⟩

include hm

theorem keySet_remove_realizes (k : K) :
    Realizes (fun m r m' => (ViewOp.remove k).Means keyFacet before m r m') true m
      (.writing .flag (KeySet.remove m s k)) := by
  rw [KeySet.remove, writing_map]
  refine realizes_writing hm s fun w =>
    ⟨(MapStore.erase w k).2, (MapStore.erase w k).1, rfl, ?_⟩
  rw [LawfulMapStore.erase_previous, LawfulMapStore.lookup_erase]
  exact ⟨flags_remove _ k, discards_key _ k⟩

theorem keySet_removeAll_realizes (ks : List K) :
    Realizes (fun m r m' => (ViewOp.removeAll ks).Means keyFacet before m r m') true m
      (.writing .flag (KeySet.removeAll m s (.ofList ks))) := by
  refine realizes_writing hm s fun w =>
    ⟨(eraseAll (false, w) ks).1, (eraseAll (false, w) ks).2, rfl, ?_, fun k v => ?_⟩
  · refine ⟨_, rfl, (eraseAll_flag (false, w) ks).trans ?_⟩
    simp
  · refine lookup_eraseAll_eq_some_iff.trans (and_congr_right fun _ => ?_)
    constructor
    · intro hk k' hk' hcovers
      have hkey : k' = k := hcovers
      exact hk (hkey ▸ hk')
    · intro hnot hk
      exact hnot k hk rfl

theorem values_remove_realizes [BEq V] (v : V) :
    Realizes (fun m r m' => (ViewOp.remove v).Means valueFacet before m r m') true m
      (.writing .flag (Values.remove m s v)) := by
  refine realizes_writing hm s fun w => ?_
  cases hfind : (MapStore.entries w).find? fun e => e.2 == v with
  | none =>
    refine ⟨false, w, rfl, flags_self _, Or.inr ⟨fun k v' h hfits => ?_, rfl⟩⟩
    have hmem : (k, v') ∈ MapStore.entries w := (LawfulMapStore.lists w).mem_iff.2 h
    exact List.find?_eq_none.1 hfind (k, v') hmem hfits
  | some e =>
    obtain ⟨hheld, hfits, hfirst⟩ := (LawfulMapStore.lists w).of_find?_eq_some hfind
    refine ⟨(MapStore.erase w e.1).2.isSome, (MapStore.erase w e.1).1, rfl, ?_⟩
    rw [LawfulMapStore.erase_previous, LawfulMapStore.lookup_erase]
    exact ⟨flags_remove _ e.1, Or.inl ⟨e.1, e.2, hheld, hfits, fun k' v' => hfirst (k', v'), rfl⟩⟩

theorem entrySet_remove_realizes [BEq V] (e : K × V) :
    Realizes (fun m r m' => (ViewOp.remove e).Means entryFacet before m r m') true m
      (.writing .flag (EntrySet.remove m s e.1 e.2)) := by
  refine realizes_writing hm s fun w => ?_
  cases hholds : EntrySet.holds w e.1 e.2 with
  | false =>
    refine ⟨false, w, rfl, flags_self _, Or.inr ⟨?_, rfl⟩⟩
    rintro k v h ⟨hk, hv⟩
    have hkey : k = e.1 := hk
    rw [EntrySet.holds, ← hkey, h, Option.any_some] at hholds
    have hno : (v == e.2) = true := hv
    rw [hno] at hholds
    cases hholds
  | true =>
    obtain ⟨v, hheld, hv⟩ := (Option.any_eq_true _ _).1 hholds
    refine ⟨(MapStore.erase w e.1).2.isSome, (MapStore.erase w e.1).1, rfl, ?_⟩
    rw [LawfulMapStore.erase_previous, LawfulMapStore.lookup_erase]
    refine ⟨flags_remove _ e.1, Or.inl ⟨e.1, v, hheld, ⟨rfl, hv⟩, ?_, rfl⟩⟩
    exact fun k' v' _ hfits => Or.inl hfits.1

end Removals

/-! ## Every operation -/

section Operations

variable {m : CowMap M} (hm : m.copier.Faithful Alike) (s : Supply)

omit laws in
theorem contains_reads {α : Type} {facet : Facet K V α} (a : α) {b : Bool}
    (hb : b = true ↔ ∃ k v, m.plain k = some v ∧ facet.fits (k, v) a) :
    Realizes (fun m r m' => (ViewOp.contains a).Means facet before m r m') false m
      (.reading m s (.flag b)) :=
  realizes_reading ⟨⟨b, rfl, hb⟩, rfl⟩

include hm

theorem onKeys_realizes (op : ViewOp K) :
    Realizes (fun m r m' => op.Means keyFacet before m r m') op.writes m (op.onKeys m s) := by
  cases op with
  | len => exact realizes_reading ⟨counts_size m, rfl⟩
  | isEmpty => exact realizes_reading ⟨tellsEmpty_isEmpty m, rfl⟩
  | contains k =>
    refine contains_reads s k (Option.isSome_iff_exists.trans ?_)
    constructor
    · rintro ⟨v, hv⟩
      exact ⟨k, v, hv, rfl⟩
    · rintro ⟨k', v, hv, hk⟩
      have hkey : k' = k := hk
      exact ⟨v, hkey ▸ hv⟩
  | iter => exact realizes_reading ⟨⟨m.entries, lists_plain m, rfl⟩, rfl⟩
  | remove k => exact keySet_remove_realizes hm s k
  | removeAll ks => exact keySet_removeAll_realizes hm s ks
  | retain ask t => exact retain_realizes hm s Prod.fst ask t
  | clear => exact clear_realizes hm s
  | insert k => exact realizes_reading ⟨rfl, rfl⟩
  | insertAll ks => exact realizes_reading ⟨rfl, rfl⟩

theorem onValues_realizes [BEq V] (op : ViewOp V) :
    Realizes (fun m r m' => op.Means valueFacet before m r m') op.writes m
      (op.onValues m s) := by
  cases op with
  | len => exact realizes_reading ⟨counts_size m, rfl⟩
  | isEmpty => exact realizes_reading ⟨tellsEmpty_isEmpty m, rfl⟩
  | contains v =>
    refine contains_reads s v (List.any_eq_true.trans ?_)
    constructor
    · rintro ⟨e, he, hv⟩
      exact ⟨e.1, e.2, (lists_plain m).mem_iff.1 he, hv⟩
    · rintro ⟨k, v', hheld, hv⟩
      exact ⟨(k, v'), (lists_plain m).mem_iff.2 hheld, hv⟩
  | iter => exact realizes_reading ⟨⟨m.entries, lists_plain m, rfl⟩, rfl⟩
  | remove v => exact values_remove_realizes hm s v
  | removeAll vs =>
    refine sweep_realizes hm s valueFacet vs fun e => ?_
    simp [valueFacet]
  | retain ask t => exact retain_realizes hm s Prod.snd ask t
  | clear => exact clear_realizes hm s
  | insert v => exact realizes_reading ⟨rfl, rfl⟩
  | insertAll vs => exact realizes_reading ⟨rfl, rfl⟩

theorem onEntries_realizes [BEq V] (op : ViewOp (K × V)) :
    Realizes (fun m r m' => op.Means entryFacet before m r m') op.writes m
      (op.onEntries m s) := by
  cases op with
  | len => exact realizes_reading ⟨counts_size m, rfl⟩
  | isEmpty => exact realizes_reading ⟨tellsEmpty_isEmpty m, rfl⟩
  | contains e =>
    refine contains_reads s e ((Option.any_eq_true _ _).trans ?_)
    constructor
    · rintro ⟨v, hheld, hv⟩
      exact ⟨e.1, v, hheld, rfl, hv⟩
    · rintro ⟨k, v, hheld, hk, hv⟩
      have hkey : k = e.1 := hk
      exact ⟨v, hkey ▸ hheld, hv⟩
  | iter =>
    refine realizes_reading ⟨⟨m.entries, lists_plain m, ?_⟩, rfl⟩
    exact congrArg Result.entries (List.map_id m.entries).symm
  | remove e => exact entrySet_remove_realizes hm s e
  | removeAll es =>
    refine sweep_realizes hm s entryFacet es fun e => ?_
    simp [entryFacet]
  | retain ask t => exact retain_realizes hm s id ask t
  | clear => exact clear_realizes hm s
  | insert e => exact realizes_reading ⟨rfl, rfl⟩
  | insertAll es => exact realizes_reading ⟨rfl, rfl⟩

theorem perform_realizes [BEq V] (op : Op K V) :
    Realizes (fun m r m' => op.Means before m r m') op.writes m (op.perform m s) := by
  cases op with
  | get k => exact realizes_reading ⟨rfl, rfl⟩
  | containsKey k => exact realizes_reading ⟨rfl, rfl⟩
  | len => exact realizes_reading ⟨counts_size m, rfl⟩
  | isEmpty => exact realizes_reading ⟨tellsEmpty_isEmpty m, rfl⟩
  | iter => exact realizes_reading ⟨⟨m.entries, lists_plain m, rfl⟩, rfl⟩
  | put k v => exact put_realizes hm s k v
  | remove k => exact remove_realizes hm s k
  | putAll es => exact putAll_realizes hm s es
  | clear => exact clear_realizes hm s
  | retain ask t => exact retain_realizes hm s id ask t
  | keys op => exact onKeys_realizes hm s op
  | values op => exact onValues_realizes hm s op
  | entries op => exact onEntries_realizes hm s op

end Operations

/-! ## Every sequence of operations -/

/-- Operations made one after another on a copy-on-write map, over a lawful store and with a
faithful copy function, give the results and leave the contents that they do on a plain map; each
that writes counts one version, also if it changes nothing. -/
theorem performAll_follows [BEq V] (m : CowMap M) (s : Supply) (ops : List (Op K V))
    (hm : m.copier.Faithful Alike) :
    Follows before m.plain m.version ops
      ((performAll m s ops).map fun (r, m') => (r, m'.plain, m'.version)) := by
  induction ops generalizing m s with
  | nil => exact .nil m.plain m.version
  | cons op ops ih =>
    obtain ⟨hmeans, hversion, hcopier⟩ := perform_realizes hm s op
    exact .cons hmeans hversion (ih _ _ (hcopier ▸ hm))

omit laws [DecidableEq K] [MapStore M K V] in
/-- A run over each kind of store: of two entries with one value a sorted store discards the one
with the lesser key, and a removal of nothing counts a version too. -/
theorem performAll_follows_stores :
    let ops : List (Op Nat Nat) :=
      [.putAll [(2, 5), (1, 5), (2, 5)], .values (.remove 5), .keys (.removeAll [7]), .iter]
    let sorted : CowMap (SortedMap Nat Nat) := ⟨⟨0, MapStore.empty⟩, .custom fun _ c => .ok c, 0⟩
    let unordered : CowMap (UnorderedMap Nat Nat) := ⟨⟨0, MapStore.empty⟩, .plain, 0⟩
    (performAll sorted {} ops).map (fun (r, m) => (r, m.version)) =
        [(.done, 1), (.flag true, 2), (.flag false, 3), (.entries [(2, 5)], 3)] ∧
      Follows (· < ·) sorted.plain 0 ops
        ((performAll sorted {} ops).map fun (r, m) => (r, m.plain, m.version)) ∧
      Follows (fun _ _ => True) unordered.plain 0 ops
        ((performAll unordered {} ops).map fun (r, m) => (r, m.plain, m.version)) :=
  ⟨rfl, performAll_follows _ _ _ fun _ c => ⟨c, rfl, rfl⟩, performAll_follows _ _ _ trivial⟩

end SharedCells.CowMap
