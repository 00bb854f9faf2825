import SharedCells.Proofs.CopyOnWrite.Atomic

/-!
# What calls write

A call on a cell, a map, a view or a set makes one write of the cell or none, which is known before
it is made: it depends on what the call is given, and not on what the cell holds.

* `Job.of` and its like are the mutations that calls make of a working copy.
* `Reads` lists what can be read, and `Comprises` the calls, each with the mutation of its write, or
  with none.
* `Comprises.does` says that this is all that they do to the cell and to the supply.
-/

namespace SharedCells

open Store

namespace CopyOnWrite

variable {C ε ε' R R' : Type}

/-! ## Mutations -/

/-- What a mutation makes of a working copy, if it does not fail. -/
def Job.of (mutation : C → Except ε (R × C)) : Job C := fun c => (mutation c).toOption.map Prod.snd

/-- A change made with every item that a source yields. -/
def Job.each {A : Type} (feed : Feed A) (change : C → A → C) : Job C :=
  fun c => (feed.fold change c).toOption

section Maps

variable {M K V : Type} [MapStore M K V]

def Job.put (k : K) (v : V) : Job M := fun w => some (MapStore.insert w k v).1

def Job.erase (k : K) : Job M := fun w => some (MapStore.erase w k).1

def Job.clear : Job M := fun w => some (MapStore.clear w)

def Job.retain {σ : Type} (ask : σ → K × V → Except Panic (Bool × σ)) (t : σ) : Job M :=
  fun w => (MapStore.retain ask t w).toOption.map Prod.fst

/-- To drop the entries that a test does not keep. -/
def Job.keep (test : K × V → Bool) : Job M := Job.retain (keeping test) ()

/-- To drop the entry of a key, if a key can be told. -/
def Job.eraseAt (key? : M → Option K) : Job M :=
  fun w => some ((key? w).elim w fun k => (MapStore.erase w k).1)

end Maps

section Sets

variable {S α : Type} [SetStore S α]

def Job.add (a : α) : Job S := fun c => some (SetStore.insert c a).1

def Job.drop (a : α) : Job S := fun c => some (SetStore.erase c a).1

end Sets

/-! ## Calls -/

/-- The reads of cells, maps, views and sets. -/
inductive Reads : {C α : Type} → (CopyOnWrite C → Except Panic α) → Prop
  /-- The contents are shown to a function of the caller, which may panic. A snapshot is such a
  read, and so are the text, the document, the digest and the comparison of contents. -/
  | contents {C α : Type} (tell : C → Except Panic α) : Reads fun cell => tell cell.contents
  | version {C : Type} : Reads fun (cell : CopyOnWrite C) => .ok cell.version
  -- Maps.
  | size {M K V : Type} [MapStore M K V] : Reads fun (m : CowMap M) => .ok m.size
  | isEmpty {M K V : Type} [MapStore M K V] : Reads fun (m : CowMap M) => .ok m.isEmpty
  | get {M K V : Type} [MapStore M K V] (k : K) : Reads fun (m : CowMap M) => .ok (m.get? k)
  | contains {M K V : Type} [MapStore M K V] (k : K) :
    Reads fun (m : CowMap M) => .ok (m.contains k)
  | iter {M K V : Type} [MapStore M K V] : Reads fun (m : CowMap M) => .ok m.iter
  /-- A cursor, of a map or of one of its views, is made of the entries. -/
  | cursor {M K V α : Type} [MapStore M K V] (project : K → V → α) :
    Reads fun (m : CowMap M) => .ok (Cursor.ofEntries m.entries project)
  -- Views of maps.
  | keysSize {M K V : Type} [MapStore M K V] : Reads fun (m : CowMap M) => .ok (KeySet.size m)
  | keysIsEmpty {M K V : Type} [MapStore M K V] :
    Reads fun (m : CowMap M) => .ok (KeySet.isEmpty m)
  | keysContains {M K V : Type} [MapStore M K V] (k : K) :
    Reads fun (m : CowMap M) => .ok (KeySet.contains m k)
  | keysIter {M K V : Type} [MapStore M K V] : Reads fun (m : CowMap M) => .ok (KeySet.iter m)
  | keysEqual {M N K V W : Type} [MapStore M K V] [MapStore N K W] (n : CowMap N) :
    Reads fun (m : CowMap M) => .ok (KeySet.equal m n)
  | keysEqualsSet {M S K V : Type} [MapStore M K V] [SetStore S K] (set : S) :
    Reads fun (m : CowMap M) => .ok (KeySet.equalsSet m set)
  | keysBytes {M K V : Type} [MapStore M K V] [Digest.Fingerprint K] :
    Reads fun (m : CowMap M) => .ok (KeySet.bytes m)
  | valuesSize {M K V : Type} [MapStore M K V] : Reads fun (m : CowMap M) => .ok (Values.size m)
  | valuesIsEmpty {M K V : Type} [MapStore M K V] :
    Reads fun (m : CowMap M) => .ok (Values.isEmpty m)
  | valuesContains {M K V : Type} [MapStore M K V] [BEq V] (v : V) :
    Reads fun (m : CowMap M) => .ok (Values.contains m v)
  | valuesIter {M K V : Type} [MapStore M K V] : Reads fun (m : CowMap M) => .ok (Values.iter m)
  | entriesSize {M K V : Type} [MapStore M K V] :
    Reads fun (m : CowMap M) => .ok (EntrySet.size m)
  | entriesIsEmpty {M K V : Type} [MapStore M K V] :
    Reads fun (m : CowMap M) => .ok (EntrySet.isEmpty m)
  | entriesContains {M K V : Type} [MapStore M K V] [BEq V] (k : K) (v : V) :
    Reads fun (m : CowMap M) => .ok (EntrySet.contains m k v)
  | entriesIter {M K V : Type} [MapStore M K V] :
    Reads fun (m : CowMap M) => .ok (EntrySet.iter m)
  | entriesEqual {M N K V : Type} [MapStore M K V] [MapStore N K V] [BEq V] (n : CowMap N) :
    Reads fun (m : CowMap M) => .ok (EntrySet.equal m n)
  | entriesEqualsStore {M N K V : Type} [MapStore M K V] [MapStore N K V] [BEq V] (other : N) :
    Reads fun (m : CowMap M) => .ok (EntrySet.equalsStore m other)
  | entriesBytes {M K V : Type} [MapStore M K V] [Digest.Fingerprint K] [Digest.Fingerprint V] :
    Reads fun (m : CowMap M) => .ok (EntrySet.bytes m)
  -- Sorted maps and their parts.
  | firstEntry {K V : Type} [LE K] [LT K] [DecidableLE K] [DecidableLT K] [Std.IsLinearOrder K]
    [Std.LawfulOrderLT K] : Reads fun (m : CowMap (SortedMap K V)) => .ok m.firstEntry
  | lastEntry {K V : Type} [LE K] [LT K] [DecidableLE K] [DecidableLT K] [Std.IsLinearOrder K]
    [Std.LawfulOrderLT K] : Reads fun (m : CowMap (SortedMap K V)) => .ok m.lastEntry
  | firstKey {K V : Type} [LE K] [LT K] [DecidableLE K] [DecidableLT K] [Std.IsLinearOrder K]
    [Std.LawfulOrderLT K] : Reads fun (m : CowMap (SortedMap K V)) => .ok m.firstKey
  | lastKey {K V : Type} [LE K] [LT K] [DecidableLE K] [DecidableLT K] [Std.IsLinearOrder K]
    [Std.LawfulOrderLT K] : Reads fun (m : CowMap (SortedMap K V)) => .ok m.lastKey
  | partGet {K V : Type} [LE K] [LT K] [DecidableLE K] [DecidableLT K] [Std.IsLinearOrder K]
    [Std.LawfulOrderLT K] (r : KeyRange K) (k : K) :
    Reads fun (m : CowMap (SortedMap K V)) => .ok (SubMap.get? r m k)
  | partContains {K V : Type} [LE K] [LT K] [DecidableLE K] [DecidableLT K] [Std.IsLinearOrder K]
    [Std.LawfulOrderLT K] (r : KeyRange K) (k : K) :
    Reads fun (m : CowMap (SortedMap K V)) => .ok (SubMap.contains r m k)
  | partSize {K V : Type} [LE K] [LT K] [DecidableLE K] [DecidableLT K] [Std.IsLinearOrder K]
    [Std.LawfulOrderLT K] (r : KeyRange K) :
    Reads fun (m : CowMap (SortedMap K V)) => .ok (SubMap.size r m)
  | partIsEmpty {K V : Type} [LE K] [LT K] [DecidableLE K] [DecidableLT K] [Std.IsLinearOrder K]
    [Std.LawfulOrderLT K] (r : KeyRange K) :
    Reads fun (m : CowMap (SortedMap K V)) => .ok (SubMap.isEmpty r m)
  | partFirstKey {K V : Type} [LE K] [LT K] [DecidableLE K] [DecidableLT K] [Std.IsLinearOrder K]
    [Std.LawfulOrderLT K] (r : KeyRange K) :
    Reads fun (m : CowMap (SortedMap K V)) => .ok (SubMap.firstKey r m)
  | partLastKey {K V : Type} [LE K] [LT K] [DecidableLE K] [DecidableLT K] [Std.IsLinearOrder K]
    [Std.LawfulOrderLT K] (r : KeyRange K) :
    Reads fun (m : CowMap (SortedMap K V)) => .ok (SubMap.lastKey r m)
  | partIter {K V : Type} [LE K] [LT K] [DecidableLE K] [DecidableLT K] [Std.IsLinearOrder K]
    [Std.LawfulOrderLT K] (r : KeyRange K) :
    Reads fun (m : CowMap (SortedMap K V)) => .ok (SubMap.iter r m)
  | partKeys {K V : Type} [LE K] [LT K] [DecidableLE K] [DecidableLT K] [Std.IsLinearOrder K]
    [Std.LawfulOrderLT K] (r : KeyRange K) :
    Reads fun (m : CowMap (SortedMap K V)) => .ok (SubMap.keys r m)
  | partValues {K V : Type} [LE K] [LT K] [DecidableLE K] [DecidableLT K] [Std.IsLinearOrder K]
    [Std.LawfulOrderLT K] (r : KeyRange K) :
    Reads fun (m : CowMap (SortedMap K V)) => .ok (SubMap.values r m)
  | partCursor {K V α : Type} [LE K] [LT K] [DecidableLE K] [DecidableLT K]
    [Std.IsLinearOrder K] [Std.LawfulOrderLT K] (r : KeyRange K) (project : K → V → α) :
    Reads fun (m : CowMap (SortedMap K V)) => .ok (SubMap.cursor r m project)
  | partEqual {K V : Type} [LE K] [LT K] [DecidableLE K] [DecidableLT K] [Std.IsLinearOrder K]
    [Std.LawfulOrderLT K] [BEq K] [BEq V] (r r' : KeyRange K) (m' : CowMap (SortedMap K V)) :
    Reads fun (m : CowMap (SortedMap K V)) => .ok (SubMap.equal r m r' m')
  | partEqualsStore {K V : Type} [LE K] [LT K] [DecidableLE K] [DecidableLT K]
    [Std.IsLinearOrder K] [Std.LawfulOrderLT K] [BEq K] [BEq V] (r : KeyRange K)
    (other : SortedMap K V) :
    Reads fun (m : CowMap (SortedMap K V)) => .ok (SubMap.equalsStore r m other)
  -- Sets.
  | setSize {S α : Type} [SetStore S α] : Reads fun (c : CowSet S) => .ok c.size
  | setIsEmpty {S α : Type} [SetStore S α] : Reads fun (c : CowSet S) => .ok c.isEmpty
  | setContains {S α : Type} [SetStore S α] (a : α) :
    Reads fun (c : CowSet S) => .ok (c.contains a)
  | setIter {S α : Type} [SetStore S α] : Reads fun (c : CowSet S) => .ok c.iter

/-- The calls on cells, maps, views and sets, with what each of them does to a working copy of the
cell, or with nothing if it makes no write. Mutations, predicates, sources and reads may panic. -/
inductive Comprises : {C : Type} → Option (Job C) → Act C → Prop
  | look {C α : Type} {read : CopyOnWrite C → Except Panic α} : Reads read →
    Comprises none fun cell s => ⟨(read cell).isOk, cell, s⟩
  | write {C R : Type} (mutation : C → Except Panic (R × C)) :
    Comprises (some (Job.of mutation)) fun cell s => (cell.write s mutation).called
  | tryWrite {C R E : Type} (mutation : C → Except (Fault E) (R × C)) :
    Comprises (some (Job.of mutation)) fun cell s => (cell.tryWrite s mutation).called
  -- Maps.
  | put {M K V : Type} [MapStore M K V] (k : K) (v : V) :
    Comprises (some (Job.put k v)) fun (m : CowMap M) s => (m.put s k v).called
  | remove {M K V : Type} [MapStore M K V] (k : K) :
    Comprises (some (Job.erase k)) fun (m : CowMap M) s => (m.remove s k).called
  | putAll {M K V : Type} [MapStore M K V] (feed : Feed (K × V)) :
    Comprises (some (Job.each feed fun w (k, v) => (MapStore.insert w k v).1))
      fun (m : CowMap M) s => (m.putAll s feed).called
  | clear {M K V : Type} [MapStore M K V] :
    Comprises (some Job.clear) fun (m : CowMap M) s => (m.clear s).called
  | retain {M K V σ : Type} [MapStore M K V] (ask : σ → K × V → Except Panic (Bool × σ)) (t : σ) :
    Comprises (some (Job.retain ask t)) fun (m : CowMap M) s => (m.retain s ask t).called
  | cursorRemove {M K V α : Type} [MapStore M K V] (c : Cursor K V α) :
    Comprises (c.current.map Job.erase) fun (m : CowMap M) s => (c.remove m s).2.called
  -- Views of maps.
  | keysRemove {M K V : Type} [MapStore M K V] (k : K) :
    Comprises (some (Job.erase k)) fun (m : CowMap M) s => (KeySet.remove m s k).called
  | keysRemoveAll {M K V : Type} [MapStore M K V] (feed : Feed K) :
    Comprises (some (Job.each feed fun w k => (MapStore.erase w k).1))
      fun (m : CowMap M) s => (KeySet.removeAll m s feed).called
  | keysRetain {M K V σ : Type} [MapStore M K V] (ask : σ → K → Except Panic (Bool × σ)) (t : σ) :
    Comprises (some (Job.retain (fun t (k, _) => ask t k) t))
      fun (m : CowMap M) s => (KeySet.retain m s ask t).called
  | keysClear {M K V : Type} [MapStore M K V] :
    Comprises (some Job.clear) fun (m : CowMap M) s => (KeySet.clear m s).called
  | keysInsert {M K V : Type} [MapStore M K V] (k : K) :
    Comprises none fun (m : CowMap M) s => ⟨(KeySet.insert m k).isOk, m, s⟩
  | keysInsertAll {M K V : Type} [MapStore M K V] (feed : Feed K) :
    Comprises none fun (m : CowMap M) s => ⟨(KeySet.insertAll m feed).isOk, m, s⟩
  | valuesRemove {M K V : Type} [MapStore M K V] [BEq V] (v : V) :
    Comprises (some (Job.eraseAt fun w =>
        ((MapStore.entries w).find? fun (_, held) => held == v).map Prod.fst))
      fun (m : CowMap M) s => (Values.remove m s v).called
  | valuesRemoveAll {M K V : Type} [MapStore M K V] [BEq V] (vs : List V) :
    Comprises (some (Job.keep fun (_, held) => !vs.any fun v => v == held))
      fun (m : CowMap M) s => (Values.removeAll m s vs).called
  | valuesRetain {M K V σ : Type} [MapStore M K V] (ask : σ → V → Except Panic (Bool × σ))
    (t : σ) : Comprises (some (Job.retain (fun t (_, v) => ask t v) t))
      fun (m : CowMap M) s => (Values.retain m s ask t).called
  | valuesClear {M K V : Type} [MapStore M K V] :
    Comprises (some Job.clear) fun (m : CowMap M) s => (Values.clear m s).called
  | valuesInsert {M K V : Type} [MapStore M K V] (v : V) :
    Comprises none fun (m : CowMap M) s => ⟨(Values.insert m v).isOk, m, s⟩
  | valuesInsertAll {M K V : Type} [MapStore M K V] (feed : Feed V) :
    Comprises none fun (m : CowMap M) s => ⟨(Values.insertAll m feed).isOk, m, s⟩
  | entriesRemove {M K V : Type} [MapStore M K V] [BEq V] (k : K) (v : V) :
    Comprises (some (Job.eraseAt fun w => if EntrySet.holds w k v then some k else none))
      fun (m : CowMap M) s => (EntrySet.remove m s k v).called
  | entriesRemoveAll {M K V : Type} [MapStore M K V] [BEq K] [BEq V] (es : List (K × V)) :
    Comprises (some (Job.keep fun (k, v) => !es.any fun (k', v') => k' == k && v' == v))
      fun (m : CowMap M) s => (EntrySet.removeAll m s es).called
  | entriesRetain {M K V σ : Type} [MapStore M K V] (ask : σ → K × V → Except Panic (Bool × σ))
    (t : σ) : Comprises (some (Job.retain ask t))
      fun (m : CowMap M) s => (EntrySet.retain m s ask t).called
  | entriesClear {M K V : Type} [MapStore M K V] :
    Comprises (some Job.clear) fun (m : CowMap M) s => (EntrySet.clear m s).called
  | entriesInsert {M K V : Type} [MapStore M K V] (e : K × V) :
    Comprises none fun (m : CowMap M) s => ⟨(EntrySet.insert m e).isOk, m, s⟩
  | entriesInsertAll {M K V : Type} [MapStore M K V] (feed : Feed (K × V)) :
    Comprises none fun (m : CowMap M) s => ⟨(EntrySet.insertAll m feed).isOk, m, s⟩
  -- Parts of sorted maps, which make a write only if a key asked for lies in the range.
  | partPut {K V : Type} [LE K] [LT K] [DecidableLE K] [DecidableLT K] [Std.IsLinearOrder K]
    [Std.LawfulOrderLT K] (r : KeyRange K) (k : K) (v : V) :
    Comprises (if r.contains k then some (Job.put k v) else none)
      fun (m : CowMap (SortedMap K V)) s => (SubMap.put r m s k v).called
  | partRemove {K V : Type} [LE K] [LT K] [DecidableLE K] [DecidableLT K] [Std.IsLinearOrder K]
    [Std.LawfulOrderLT K] (r : KeyRange K) (k : K) :
    Comprises (if r.contains k then some (Job.erase k) else none)
      fun (m : CowMap (SortedMap K V)) s => (SubMap.remove r m s k).called
  /-- A source that panics is read before the cell is written. -/
  | partRemoveAll {K V : Type} [LE K] [LT K] [DecidableLE K] [DecidableLT K]
    [Std.IsLinearOrder K] [Std.LawfulOrderLT K] (r : KeyRange K) (feed : Feed K) :
    Comprises (if feed.failure.isNone && feed.items.any r.contains then
        some (Job.each (.ofList (feed.items.filter r.contains)) fun w k => (MapStore.erase w k).1)
      else none)
      fun (m : CowMap (SortedMap K V)) s => (SubMap.removeAll r m s feed).called
  | partClear {K V : Type} [LE K] [LT K] [DecidableLE K] [DecidableLT K] [Std.IsLinearOrder K]
    [Std.LawfulOrderLT K] (r : KeyRange K) :
    Comprises (some (Job.keep fun (k, _) => !r.contains k))
      fun (m : CowMap (SortedMap K V)) s => (SubMap.clear r m s).called
  | partRetain {K V σ : Type} [LE K] [LT K] [DecidableLE K] [DecidableLT K]
    [Std.IsLinearOrder K] [Std.LawfulOrderLT K] (r : KeyRange K)
    (ask : σ → K × V → Except Panic (Bool × σ)) (t : σ) :
    Comprises (some (Job.retain (fun t (k, v) => if r.contains k then ask t (k, v)
        else .ok (true, t)) t))
      fun (m : CowMap (SortedMap K V)) s => (SubMap.retain r m s ask t).called
  -- Sets.
  | setInsert {S α : Type} [SetStore S α] (a : α) :
    Comprises (some (Job.add a)) fun (c : CowSet S) s => (c.insert s a).called
  | setRemove {S α : Type} [SetStore S α] (a : α) :
    Comprises (some (Job.drop a)) fun (c : CowSet S) s => (c.remove s a).called
  | setInsertAll {S α : Type} [SetStore S α] (feed : Feed α) :
    Comprises (some (Job.each feed fun c a => (SetStore.insert c a).1))
      fun (c : CowSet S) s => (c.insertAll s feed).called
  | setRemoveAll {S α : Type} [SetStore S α] (feed : Feed α) :
    Comprises (some (Job.each feed fun c a => (SetStore.erase c a).1))
      fun (c : CowSet S) s => (c.removeAll s feed).called
  | setRetain {S α σ : Type} [SetStore S α] (ask : σ → α → Except Panic (Bool × σ)) (t : σ) :
    Comprises (some fun c => (SetStore.retain ask t c).toOption.map Prod.fst)
      fun (c : CowSet S) s => (c.retain s ask t).called
  | setClear {S α : Type} [SetStore S α] :
    Comprises (some fun c => some (SetStore.clear c)) fun (c : CowSet S) s => (c.clear s).called

/-! ## What calls do -/

/-- A write does what its mutation does to a working copy; the result is for the caller alone. -/
theorem attempt_called (cell : CopyOnWrite C) (s : Supply) (raise : Panic → ε)
    (mutation : C → Except ε (R × C)) :
    (cell.attempt s raise mutation).called = (Job.of mutation).act cell s := by
  rcases hcopy : cell.copyCurrent s with ⟨copied, s'⟩
  cases copied with
  | error p =>
    rw [attempt_of_copy_error hcopy, Job.act_of_copy_error hcopy]
    rfl
  | ok w =>
    cases hw : mutation w with
    | error e =>
      have hjob : Job.of mutation w = none := by rw [Job.of, hw]; rfl
      rw [attempt_of_error hcopy hw, Job.act_of_none hcopy hjob]
      rfl
    | ok out =>
      have hjob : Job.of mutation w = some out.2 := by rw [Job.of, hw]; rfl
      rw [attempt_of_ok hcopy hw, Job.act_of_some hcopy hjob]
      rfl

/-- A write whose mutation is known by what it makes of a working copy. -/
theorem write_called {job : Job C} {mutation : C → Except Panic (R × C)}
    (h : ∀ c, (mutation c).toOption.map Prod.snd = job c) (cell : CopyOnWrite C) (s : Supply) :
    (cell.write s mutation).called = job.act cell s := by
  have hjob : Job.of mutation = job := funext h
  rw [← hjob]
  exact cell.attempt_called s id mutation

theorem toOption_map_snd (e : Except ε R) (f : R → R' × C) :
    (e.map f).toOption.map Prod.snd = e.toOption.map fun r => (f r).2 := by
  cases e <;> rfl

/-- How a write shows its result does not matter. -/
theorem called_of_isOk {w : Written C ε R} {result : Except ε' R'}
    (h : result.isOk = w.result.isOk) : Written.called ⟨result, w.cell, w.supply⟩ = w.called := by
  rw [Written.called, Written.called, h]

/-- What a call does that makes a write, or none. -/
def Does (job? : Option (Job C)) (cell : CopyOnWrite C) (s : Supply) (c : Called C) : Prop :=
  match job? with
  | some job => c = job.act cell s
  | none => c.cell = cell ∧ c.supply = s

/-- A change made with every item of a source, by a write that also keeps a flag. -/
theorem each_called {A : Type} (change : C → A → C) (flag : Bool × C → A → Bool) (feed : Feed A)
    (cell : CopyOnWrite C) (s : Supply) :
    (cell.write s fun c =>
        feed.fold (fun p a => (flag p a, change p.2 a)) (false, c)).called =
      Job.act (Job.each feed change) cell s := by
  have hfold : ∀ (as : List A) (p : Bool × C),
      (as.foldl (fun p a => (flag p a, change p.2 a)) p).2 = as.foldl change p.2 := by
    intro as
    induction as with
    | nil => exact fun p => rfl
    | cons a as ih => exact fun p => ih (flag p a, change p.2 a)
  refine write_called (fun c => ?_) cell s
  rw [Job.each, Feed.fold, Feed.fold]
  cases feed.failure with
  | some p => rfl
  | none => exact congrArg some (hfold feed.items (false, c))

theorem cursorRemove_does {M K V α : Type} [MapStore M K V] (c : Cursor K V α) (m : CowMap M)
    (s : Supply) : Does (c.current.map Job.erase) m s (c.remove m s).2.called := by
  unfold Cursor.remove
  cases c.current with
  | none => exact ⟨rfl, rfl⟩
  | some k =>
    refine (called_of_isOk (w := m.remove s k) ?_).trans (write_called (fun _ => rfl) m s)
    cases (m.remove s k).result <;> rfl

section Part

variable {K V : Type} [LE K] [LT K] [DecidableLE K] [DecidableLT K] [Std.IsLinearOrder K]
  [Std.LawfulOrderLT K] (r : KeyRange K) (m : CowMap (SortedMap K V)) (s : Supply)

theorem partPut_does (k : K) (v : V) :
    Does (if r.contains k then some (Job.put k v) else none) m s (SubMap.put r m s k v).called := by
  unfold SubMap.put
  cases r.contains k with
  | false => exact ⟨rfl, rfl⟩
  | true =>
    refine (called_of_isOk (w := m.put s k v) ?_).trans (write_called (fun _ => rfl) m s)
    cases (m.put s k v).result <;> rfl

theorem partRemove_does (k : K) :
    Does (if r.contains k then some (Job.erase k) else none) m s
      (SubMap.remove r m s k).called := by
  have hinside : (m.remove s k).called = Job.act (Job.erase k) m s :=
    write_called (fun _ => rfl) m s
  unfold SubMap.remove
  cases r.contains k with
  | false => exact ⟨rfl, rfl⟩
  | true => exact hinside

theorem partRemoveAll_does (feed : Feed K) :
    Does (if feed.failure.isNone && feed.items.any r.contains then
        some (Job.each (.ofList (feed.items.filter r.contains)) fun w k => (MapStore.erase w k).1)
      else none) m s (SubMap.removeAll r m s feed).called := by
  unfold SubMap.removeAll
  cases feed.failure with
  | some p => exact ⟨rfl, rfl⟩
  | none =>
    rcases hks : feed.items.filter r.contains with _ | ⟨k, ks⟩
    · have hany : feed.items.any r.contains = false := by
        simpa [List.filter_eq_nil_iff] using hks
      rw [hany]
      exact ⟨rfl, rfl⟩
    · have hk : k ∈ feed.items.filter r.contains := hks ▸ List.mem_cons_self
      have hany : feed.items.any r.contains = true :=
        List.any_eq_true.2 ⟨k, List.mem_filter.1 hk⟩
      rw [hany]
      exact each_called (fun w k => (MapStore.erase w k).1)
        (fun p k => (MapStore.erase p.2 k).2.isSome || p.1) (.ofList (k :: ks)) m s

end Part

/-- Calls do to the cell and to the supply what their writes do, and those that make none do
nothing. -/
theorem Comprises.does {job? : Option (Job C)} {act : Act C} (h : Comprises job? act)
    (cell : CopyOnWrite C) (s : Supply) : Does job? cell s (act cell s) := by
  cases h with
  | look | keysInsert | keysInsertAll | valuesInsert | valuesInsertAll | entriesInsert
  | entriesInsertAll => exact ⟨rfl, rfl⟩
  | write mutation => exact cell.attempt_called s id mutation
  | tryWrite mutation => exact cell.attempt_called s .panicked mutation
  | put | remove | clear | keysClear | valuesClear | entriesClear | setInsert | setRemove
  | setClear => exact write_called (fun _ => rfl) cell s
  | keysRemove => exact (called_of_isOk (isOk_map ..)).trans (write_called (fun _ => rfl) cell s)
  | putAll feed =>
    refine write_called (fun w => (toOption_map_snd ..).trans ?_) cell s
    rw [Option.map_id']
    rfl
  | retain ask t | keysRetain ask t | valuesRetain ask t | entriesRetain ask t | setRetain ask t
  | partRetain r ask t => exact write_called (fun _ => toOption_map_snd ..) cell s
  | valuesRemoveAll | entriesRemoveAll | partClear =>
    exact (called_of_isOk (isOk_map ..)).trans (write_called (fun _ => toOption_map_snd ..) cell s)
  | cursorRemove c => exact cursorRemove_does c cell s
  | keysRemoveAll feed =>
    exact each_called (fun (w : C) k => (MapStore.erase w k).1)
      (fun p k => p.1 || (MapStore.erase p.2 k).2.isSome) feed cell s
  | setInsertAll feed =>
    exact each_called (fun (c : C) a => (SetStore.insert c a).1)
      (fun p a => (SetStore.insert p.2 a).2 || p.1) feed cell s
  | setRemoveAll feed =>
    exact each_called (fun (c : C) a => (SetStore.erase c a).1)
      (fun p a => (SetStore.erase p.2 a).2 || p.1) feed cell s
  | valuesRemove v =>
    refine write_called (fun w => ?_) cell s
    rw [Job.eraseAt]
    cases (MapStore.entries w).find? fun (_, held) => held == v <;> rfl
  | entriesRemove k v =>
    refine write_called (fun w => ?_) cell s
    rw [Job.eraseAt]
    cases EntrySet.holds w k v <;> rfl
  | partPut r k v => exact partPut_does r cell s k v
  | partRemove r k => exact partRemove_does r cell s k
  | partRemoveAll r feed => exact partRemoveAll_does r cell s feed

end CopyOnWrite

end SharedCells
