import SharedCells.CowSet
import SharedCells.Proofs.CowMap.PlainMap
import SharedCells.Proofs.Store.LawfulSet

/-!
# A copy-on-write set acts like a plain set

Over a lawful store, with a faithful copy function, every operation on a copy-on-write set gives
what it gives on a plain store, leaves the content that it leaves there, and counts one version
exactly if it writes.

* `Op.perform` makes an operation on a copy-on-write set, and `Op.Means` says what it gives back
  and leaves on a plain store.
* `performAll_agrees` is the result for any sequence of operations.
-/

namespace SharedCells.CowSet

open Store CopyOnWrite
open CowMap (total asks_total)

/-! ## Operations -/

inductive Op (α : Type) : Type 1 where
  | len
  | isEmpty
  | contains (a : α)
  | iter
  | insert (a : α)
  | remove (a : α)
  | insertAll (as : List α)
  | removeAll (as : List α)
  | retain {σ : Type} (ask : σ → α → Bool × σ) (t : σ)
  | clear

/-- What an operation gives back. -/
inductive Result (α : Type) : Type 1 where
  | flag (b : Bool)
  | count (n : Nat)
  | items (as : List α)
  | done
  /-- Whether anything was dropped, and the last state of the predicate. -/
  | retained {σ : Type} (dropped : Bool) (state : σ)
  | panicked (p : Panic)

variable {S α R : Type}

def Op.writes : Op α → Bool
  | insert _ | remove _ | insertAll _ | removeAll _ | retain _ _ | clear => true
  | len | isEmpty | contains _ | iter => false

/-- What an operation leaves behind. -/
structure Performed (S α : Type) where
  result : Result α
  set : CowSet S
  supply : Supply

/-- An operation that leaves the set alone. -/
def Performed.reading (c : CowSet S) (s : Supply) (result : Result α) : Performed S α :=
  ⟨result, c, s⟩

/-- An operation that is a write whose result is shown by a function. -/
def Performed.writing (shown : R → Result α) (w : Written S Panic R) : Performed S α where
  result :=
    match w.result with
    | .ok r => shown r
    | .error p => .panicked p
  set := w.cell
  supply := w.supply

variable [SetStore S α]

def Op.perform (c : CowSet S) (s : Supply) : Op α → Performed S α
  | .len => .reading c s (.count c.size)
  | .isEmpty => .reading c s (.flag c.isEmpty)
  | .contains a => .reading c s (.flag (CowSet.contains c a))
  | .iter => .reading c s (.items (CowSet.iter c).items)
  | .insert a => .writing .flag (CowSet.insert c s a)
  | .remove a => .writing .flag (CowSet.remove c s a)
  | .insertAll as => .writing .flag (c.insertAll s (.ofList as))
  | .removeAll as => .writing .flag (c.removeAll s (.ofList as))
  | .retain ask t => .writing (fun r => .retained r.1 r.2) (c.retain s (total ask) t)
  | .clear => .writing (fun _ => .done) (c.clear s)

/-- The results of operations made one after another, each with the set that it leaves. -/
def performAll (c : CowSet S) (s : Supply) : List (Op α) → List (Result α × CowSet S)
  | [] => []
  | op :: ops =>
    let p := op.perform c s
    (p.result, p.set) :: performAll p.set p.supply ops

/-! ## On a plain store -/

/-- The result is a flag that tells whether something is so. -/
def Flags (r : Result α) (p : Prop) : Prop := ∃ b, r = .flag b ∧ (b = true ↔ p)

/-- What an operation on a plain store gives back and leaves. Those on many items are made of
single ones: every item has its turn, and the flag tells whether one of them had an effect. -/
def Op.Means (alike : List α → List α → Prop) (w : S) (r : Result α) (w' : S) : Op α → Prop
  | .len => r = .count (SetStore.items w).length ∧ w' = w
  | .isEmpty => Flags r (SetStore.items w = []) ∧ w' = w
  | .contains a => Flags r (a ∈ SetStore.items w) ∧ w' = w
  | .iter => r = .items (SetStore.items w) ∧ w' = w
  | .insert a =>
    Flags r (a ∉ SetStore.items w) ∧ w' = (SetStore.insert w a).1 ∧
      ∀ b, b ∈ SetStore.items w' ↔ b = a ∨ b ∈ SetStore.items w
  | .remove a =>
    Flags r (a ∈ SetStore.items w) ∧ w' = (SetStore.erase w a).1 ∧
      ∀ b, b ∈ SetStore.items w' ↔ b ∈ SetStore.items w ∧ b ≠ a
  | .insertAll as =>
    Flags r (∃ before a after, as = before ++ a :: after ∧
        a ∉ SetStore.items (each SetStore.insert w before)) ∧
      w' = each SetStore.insert w as ∧
      ∀ b, b ∈ SetStore.items w' ↔ b ∈ as ∨ b ∈ SetStore.items w
  | .removeAll as =>
    Flags r (∃ before a after, as = before ++ a :: after ∧
        a ∈ SetStore.items (each SetStore.erase w before)) ∧
      w' = each SetStore.erase w as ∧
      ∀ b, b ∈ SetStore.items w' ↔ b ∈ SetStore.items w ∧ b ∉ as
  | .retain ask t =>
    ∃ kept u b, Asks (total ask) t (SetStore.items w) (.ok (kept, u)) ∧
      alike (SetStore.items w') kept ∧ r = .retained b u ∧
      (b = true ↔ ∃ a ∈ SetStore.items w, a ∉ SetStore.items w')
  | .clear => r = .done ∧ SetStore.items w' = []

/-- A run of operations on a plain store: each result with the store that the operation leaves and
with a version that counts the writes. A store that promises no order may list its items in
another one before each operation. -/
inductive Agrees (alike : List α → List α → Prop) :
    S → Nat → List (Op α) → List (Result α × S × Nat) → Prop
  | nil (c : S) (n : Nat) : Agrees alike c n [] []
  | cons {c w c' : S} {n n' : Nat} {op : Op α} {ops : List (Op α)} {r : Result α}
    {rest : List (Result α × S × Nat)} :
    alike (SetStore.items w) (SetStore.items c) → op.Means alike w r c' →
      (SetStore.items c').Nodup → n' = (if op.writes then n + 1 else n) →
        Agrees alike c' n' ops rest → Agrees alike c n (op :: ops) ((r, c', n') :: rest)

/-! ## One operation -/

/-- Two stores whose lists are alike. -/
def Alike (alike : List α → List α → Prop) (w c : S) : Prop :=
  alike (SetStore.items w) (SetStore.items c)

variable {alike : List α → List α → Prop} [laws : LawfulSetStore S alike]

include laws

/-- Some items of a list are kept, with the flag whether any was dropped. -/
theorem dropped_iff {w w' : S} {kept : List α} (hsub : kept.Sublist (SetStore.items w))
    (hkept : alike (SetStore.items w') kept) :
    (SetStore.size w' != SetStore.size w) = true ↔
      ∃ a ∈ SetStore.items w, a ∉ SetStore.items w' := by
  have hperm := laws.perm_of_alike hkept
  rw [bne_iff_ne, LawfulSetStore.size_eq, LawfulSetStore.size_eq, hperm.length_eq]
  constructor
  · intro hlen
    by_contra hall
    push Not at hall
    have hsubset : SetStore.items w ⊆ kept := fun a ha => hperm.mem_iff.1 (hall a ha)
    have hle := (List.subperm_of_subset (LawfulSetStore.nodup w) hsubset).length_le
    exact hlen (Nat.le_antisymm hsub.length_le hle)
  · rintro ⟨a, ha, hno⟩ hlen
    rw [hperm.mem_iff, hsub.eq_of_length hlen] at hno
    exact hno ha

omit laws in
/-- What an operation leaves behind is what a relation asks for of a store that is alike; the
version counts it exactly if it writes. -/
def Realizes (alike : List α → List α → Prop) (Q : S → Result α → S → Prop) (writes : Bool)
    (c : CowSet S) (p : Performed S α) : Prop :=
  (∃ w, Alike alike w c.contents ∧ Q w p.result p.set.contents) ∧
    p.set.version = (if writes then c.version + 1 else c.version) ∧ p.set.copier = c.copier

theorem realizes_reading {Q : S → Result α → S → Prop} {c : CowSet S} {s : Supply}
    {r : Result α} (h : Q c.contents r c.contents) :
    Realizes alike Q false c (.reading c s r) :=
  ⟨⟨c.contents, laws.alike_refl _, h⟩, rfl, rfl⟩

/-- A write with a faithful copy function does what its mutation does to every store. -/
theorem realizes_writing {Q : S → Result α → S → Prop} {c : CowSet S}
    (hc : c.copier.Faithful (Alike alike)) (s : Supply) {shown : R → Result α}
    {mutation : S → Except Panic (R × S)}
    (h : ∀ w, ∃ r w', mutation w = .ok (r, w') ∧ Q w (shown r) w') :
    Realizes alike Q true c (.writing shown (c.write s mutation)) := by
  have hcopy : ∀ w, Alike alike w c.contents → ∃ r w', mutation w = .ok (r, w') ∧
      ∃ w, Alike alike w c.contents ∧ Q w (shown r) w' := by
    intro w hw
    obtain ⟨r, w', hok, hQ⟩ := h w
    exact ⟨r, w', hok, w, hw, hQ⟩
  obtain ⟨r, hr, hQ, hversion, hcopier⟩ :=
    write_of_faithful hc (fun c => laws.alike_refl (SetStore.items c)) s hcopy
  refine ⟨?_, hversion, hcopier⟩
  simp only [Performed.writing, hr]
  exact hQ

theorem perform_realizes {c : CowSet S} (hc : c.copier.Faithful (Alike alike)) (s : Supply)
    (op : Op α) :
    Realizes alike (fun w r w' => op.Means alike w r w') op.writes c (op.perform c s) := by
  cases op with
  | len =>
    exact realizes_reading ⟨congrArg Result.count (LawfulSetStore.size_eq c.contents), rfl⟩
  | isEmpty =>
    refine realizes_reading ⟨⟨c.isEmpty, rfl, ?_⟩, rfl⟩
    rw [isEmpty, size, LawfulSetStore.size_eq, beq_iff_eq, List.length_eq_zero_iff]
  | contains a =>
    exact realizes_reading ⟨⟨_, rfl, LawfulSetStore.contains_iff c.contents a⟩, rfl⟩
  | iter => exact realizes_reading ⟨rfl, rfl⟩
  | insert a =>
    exact realizes_writing hc s fun w => ⟨_, _, rfl, ⟨_, rfl, LawfulSetStore.insert_new w a⟩, rfl,
      fun _ => LawfulSetStore.mem_insert⟩
  | remove a =>
    exact realizes_writing hc s fun w => ⟨_, _, rfl, ⟨_, rfl, LawfulSetStore.erase_there w a⟩, rfl,
      fun _ => LawfulSetStore.mem_erase⟩
  | insertAll as =>
    refine realizes_writing hc s fun w => ?_
    obtain ⟨flag, hfold, hflag⟩ := foldl_flags SetStore.insert false w as
    refine ⟨flag, _, congrArg Except.ok hfold, ⟨flag, rfl, ?_⟩, rfl, fun _ => mem_each_insert⟩
    simpa only [Bool.false_eq_true, false_or, LawfulSetStore.insert_new] using hflag
  | removeAll as =>
    refine realizes_writing hc s fun w => ?_
    obtain ⟨flag, hfold, hflag⟩ := foldl_flags SetStore.erase false w as
    refine ⟨flag, _, congrArg Except.ok hfold, ⟨flag, rfl, ?_⟩, rfl, fun _ => mem_each_erase⟩
    simpa only [Bool.false_eq_true, false_or, LawfulSetStore.erase_there] using hflag
  | retain ask t =>
    refine realizes_writing hc s fun w => ?_
    obtain ⟨kept, u, hasks⟩ := asks_total ask t (SetStore.items w)
    obtain ⟨w', hretain, hkept⟩ := LawfulSetStore.retain_ok hasks
    refine ⟨(_, u), w', by rw [hretain]; rfl, kept, u, _, hasks, hkept, rfl, ?_⟩
    exact dropped_iff (sift_sublist hasks.eq_sift) hkept
  | clear => exact realizes_writing hc s fun w => ⟨_, _, rfl, rfl, LawfulSetStore.items_clear w⟩

/-! ## Every sequence of operations -/

/-- Operations made one after another on a copy-on-write set, over a lawful store and with a
faithful copy function, give the results and leave the contents that they do on a plain store;
each that writes counts one version, also if it changes nothing. -/
theorem performAll_agrees (c : CowSet S) (s : Supply) (ops : List (Op α))
    (hc : c.copier.Faithful (Alike alike)) :
    Agrees alike c.contents c.version ops
      ((performAll c s ops).map fun (r, c') => (r, c'.contents, c'.version)) := by
  induction ops generalizing c s with
  | nil => exact .nil c.contents c.version
  | cons op ops ih =>
    obtain ⟨⟨w, hw, hmeans⟩, hversion, hcopier⟩ := perform_realizes hc s op
    exact .cons hw hmeans (LawfulSetStore.nodup _) hversion (ih _ _ (hcopier ▸ hc))

omit laws [SetStore S α] in
/-- A run over each kind of store: items that are listed twice, a bulk change whose first item has
no effect, changes of nothing, and a predicate that counts. -/
theorem performAll_agrees_stores :
    let ops : List (Op Nat) :=
      [.insertAll [2, 5, 2], .insertAll [5, 1], .removeAll [7, 5, 5], .insertAll [],
        .retain (fun t _ => (t == 0, t + 1)) 0, .iter]
    let sorted : CowSet (SortedSet Nat) := ⟨⟨0, SetStore.empty⟩, .custom fun _ c => .ok c, 0⟩
    let listed : CowSet (ListedSet Nat) := ⟨⟨0, SetStore.empty⟩, .plain, 0⟩
    let unordered : CowSet (UnorderedSet Nat) := ⟨⟨0, SetStore.empty⟩, .plain, 0⟩
    ((performAll sorted {} ops).map fun (r, c) => (r, c.items, c.version)) =
        [(.flag true, [2, 5], 1), (.flag true, [1, 2, 5], 2), (.flag true, [1, 2], 3),
          (.flag false, [1, 2], 4), (.retained true 2, [1], 5), (.items [1], [1], 5)] ∧
      Agrees Eq sorted.contents 0 ops
        ((performAll sorted {} ops).map fun (r, c) => (r, c.contents, c.version)) ∧
      ((performAll listed {} ops).map fun (_, c) => c.items) =
        [[2, 5], [2, 5, 1], [2, 1], [2, 1], [2], [2]] ∧
      Agrees Eq listed.contents 0 ops
        ((performAll listed {} ops).map fun (r, c) => (r, c.contents, c.version)) ∧
      Agrees List.Perm unordered.contents 0 ops
        ((performAll unordered {} ops).map fun (r, c) => (r, c.contents, c.version)) :=
  ⟨rfl, performAll_agrees _ _ _ fun _ c => ⟨c, rfl, rfl⟩, rfl, performAll_agrees _ _ _ trivial,
    performAll_agrees _ _ _ trivial⟩

end SharedCells.CowSet
