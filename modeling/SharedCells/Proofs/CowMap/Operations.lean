import SharedCells.CowMap.EntrySet
import SharedCells.CowMap.KeySet
import SharedCells.CowMap.Values
import SharedCells.Proofs.Store.Plain

/-!
# Operations on a map and on its views

An `Op` is one operation on a map or on its key, value or entry view. It has two meanings:

* `Op.perform` makes it on a copy-on-write map and gives the result and the map afterwards;
* `Op.Means` says what results a plain map may give and what the plain map is afterwards. Where a
  result depends on the order in which entries are listed, every order is allowed that the store
  may promise.

The three views answer alike. They differ in what they show of an entry and in which entries an
item of theirs stands for: a `Facet` says both.
-/

namespace SharedCells

open Store

namespace CowMap

/-- An operation on a view whose items have type `α`. -/
inductive ViewOp (α : Type) : Type 1 where
  | len
  | isEmpty
  | contains (a : α)
  | iter
  | remove (a : α)
  | removeAll (as : List α)
  | retain {σ : Type} (ask : σ → α → Bool × σ) (t : σ)
  | clear
  | insert (a : α)
  | insertAll (as : List α)

/-- An operation on a map or on one of its views. -/
inductive Op (K V : Type) : Type 1 where
  | get (k : K)
  | containsKey (k : K)
  | len
  | isEmpty
  | iter
  | put (k : K) (v : V)
  | remove (k : K)
  | putAll (es : List (K × V))
  | clear
  | retain {σ : Type} (ask : σ → K × V → Bool × σ) (t : σ)
  | keys (op : ViewOp K)
  | values (op : ViewOp V)
  | entries (op : ViewOp (K × V))

/-- What an operation gives back. -/
inductive Result (K V : Type) : Type 1 where
  | value (v? : Option V)
  | flag (b : Bool)
  | count (n : Nat)
  | keys (ks : List K)
  | values (vs : List V)
  | entries (es : List (K × V))
  | done
  /-- Whether anything was removed, and the last state of the predicate. -/
  | retained {σ : Type} (removed : Bool) (state : σ)
  | refused (e : ViewError)
  | panicked (p : Panic)

def ViewOp.writes {α : Type} : ViewOp α → Bool
  | remove _ | removeAll _ | retain _ _ | clear => true
  | len | isEmpty | contains _ | iter | insert _ | insertAll _ => false

def Op.writes {K V : Type} : Op K V → Bool
  | put _ _ | remove _ | putAll _ | clear | retain _ _ => true
  | get _ | containsKey _ | len | isEmpty | iter => false
  | keys op => op.writes
  | values op => op.writes
  | entries op => op.writes

/-! ## On a copy-on-write map -/

/-- A predicate that never panics, as a store asks it. -/
def total {σ α : Type} (ask : σ → α → Bool × σ) : σ → α → Except Panic (Bool × σ) :=
  fun t a => .ok (ask t a)

variable {M K V α R σ : Type}

/-- What an operation leaves behind. -/
structure Performed (M K V : Type) where
  result : Result K V
  map : CowMap M
  supply : Supply

/-- An operation that leaves the map alone. -/
def Performed.reading (m : CowMap M) (s : Supply) (result : Result K V) : Performed M K V :=
  ⟨result, m, s⟩

/-- An operation that is a write whose result is shown by a function. -/
def Performed.writing (shown : R → Result K V) (w : Written M Panic R) : Performed M K V where
  result :=
    match w.result with
    | .ok r => shown r
    | .error p => .panicked p
  map := w.cell
  supply := w.supply

def Result.ofRetain (r : Bool × σ) : Result K V := .retained r.1 r.2

def Result.ofInsert : Except ViewError Bool → Result K V
  | .ok b => .flag b
  | .error e => .refused e

variable [MapStore M K V]

def ViewOp.onKeys (m : CowMap M) (s : Supply) : ViewOp K → Performed M K V
  | .len => .reading m s (.count (KeySet.size m))
  | .isEmpty => .reading m s (.flag (KeySet.isEmpty m))
  | .contains k => .reading m s (.flag (KeySet.contains m k))
  | .iter => .reading m s (.keys (KeySet.iter m).items)
  | .remove k => .writing .flag (KeySet.remove m s k)
  | .removeAll ks => .writing .flag (KeySet.removeAll m s (.ofList ks))
  | .retain ask t => .writing .ofRetain (KeySet.retain m s (total ask) t)
  | .clear => .writing (fun _ => .done) (KeySet.clear m s)
  | .insert k => .reading m s (.ofInsert (KeySet.insert m k))
  | .insertAll ks => .reading m s (.ofInsert (KeySet.insertAll m (.ofList ks)))

def ViewOp.onValues [BEq V] (m : CowMap M) (s : Supply) : ViewOp V → Performed M K V
  | .len => .reading m s (.count (Values.size m))
  | .isEmpty => .reading m s (.flag (Values.isEmpty m))
  | .contains v => .reading m s (.flag (Values.contains m v))
  | .iter => .reading m s (.values (Values.iter m).items)
  | .remove v => .writing .flag (Values.remove m s v)
  | .removeAll vs => .writing .flag (Values.removeAll m s vs)
  | .retain ask t => .writing .ofRetain (Values.retain m s (total ask) t)
  | .clear => .writing (fun _ => .done) (Values.clear m s)
  | .insert v => .reading m s (.ofInsert (Values.insert m v))
  | .insertAll vs => .reading m s (.ofInsert (Values.insertAll m (.ofList vs)))

def ViewOp.onEntries [BEq K] [BEq V] (m : CowMap M) (s : Supply) :
    ViewOp (K × V) → Performed M K V
  | .len => .reading m s (.count (EntrySet.size m))
  | .isEmpty => .reading m s (.flag (EntrySet.isEmpty m))
  | .contains e => .reading m s (.flag (EntrySet.contains m e.1 e.2))
  | .iter => .reading m s (.entries (EntrySet.iter m).items)
  | .remove e => .writing .flag (EntrySet.remove m s e.1 e.2)
  | .removeAll es => .writing .flag (EntrySet.removeAll m s es)
  | .retain ask t => .writing .ofRetain (EntrySet.retain m s (total ask) t)
  | .clear => .writing (fun _ => .done) (EntrySet.clear m s)
  | .insert e => .reading m s (.ofInsert (EntrySet.insert m e))
  | .insertAll es => .reading m s (.ofInsert (EntrySet.insertAll m (.ofList es)))

def Op.perform [BEq K] [BEq V] (m : CowMap M) (s : Supply) : Op K V → Performed M K V
  | .get k => .reading m s (.value (m.get? k))
  | .containsKey k => .reading m s (.flag (CowMap.contains m k))
  | .len => .reading m s (.count m.size)
  | .isEmpty => .reading m s (.flag m.isEmpty)
  | .iter => .reading m s (.entries (CowMap.iter m).items)
  | .put k v => .writing .value (m.put s k v)
  | .remove k => .writing .value (CowMap.remove m s k)
  | .putAll es => .writing (fun _ => .done) (m.putAll s (.ofList es))
  | .clear => .writing (fun _ => .done) (CowMap.clear m s)
  | .retain ask t => .writing .ofRetain (CowMap.retain m s (total ask) t)
  | .keys op => op.onKeys m s
  | .values op => op.onValues m s
  | .entries op => op.onEntries m s

/-- The results of operations made one after another, each with the map that it leaves. -/
def performAll [BEq K] [BEq V] (m : CowMap M) (s : Supply) :
    List (Op K V) → List (Result K V × CowMap M)
  | [] => []
  | op :: ops =>
    let p := op.perform m s
    (p.result, p.map) :: performAll p.map p.supply ops

/-- The plain map that readers of a copy-on-write map see. -/
def plain (m : CowMap M) : Plain K V := MapStore.lookup m.contents

end CowMap

/-! ## On a plain map -/

namespace CowMap

variable {K V α : Type}

/-- What a view shows of an entry, and for which entries an item of it stands. -/
structure Facet (K V α : Type) where
  view : View
  /-- What it shows of an entry. -/
  shown : K × V → α
  /-- How a list of its items is given back. -/
  items : List α → Result K V
  /-- Whether an entry is one that a single item stands for. -/
  fits : K × V → α → Prop
  /-- Whether an item of a list stands for an entry. -/
  covers : α → K × V → Prop

/-- The keys: a key stands for its entry. -/
def keyFacet : Facet K V K := ⟨.keys, Prod.fst, .keys, fun e k => e.1 = k, fun k e => k = e.1⟩

/-- The values: a value stands for every entry whose value compares equal. -/
def valueFacet [BEq V] : Facet K V V :=
  ⟨.values, Prod.snd, .values, fun e v => e.2 == v, fun v e => v == e.2⟩

/-- The entries: a pair stands for the entry of its key if the values compare equal. -/
def entryFacet [BEq V] : Facet K V (K × V) :=
  ⟨.entries, id, .entries, fun e a => e.1 = a.1 ∧ e.2 == a.2, fun a e => a.1 = e.1 ∧ a.2 == e.2⟩

/-- A flag that tells whether a change took an entry away. -/
def Flags (m : Plain K V) (r : Result K V) (m' : Plain K V) : Prop :=
  ∃ b, r = .flag b ∧ (b = true ↔ m.Loses m')

def Counts (before : K → K → Prop) (m : Plain K V) (r : Result K V) : Prop :=
  ∃ es, m.Lists before es ∧ r = .count es.length

def TellsEmpty (m : Plain K V) (r : Result K V) : Prop :=
  ∃ b, r = .flag b ∧ (b = true ↔ ∀ k, m k = none)

/-- A predicate is asked once about what is shown of each entry, in the order of the list, and
the entries that it keeps are left. -/
def Retains {σ : Type} (before : K → K → Prop) (shown : K × V → α) (ask : σ → α → Bool × σ)
    (t : σ) (m : Plain K V) (r : Result K V) (m' : Plain K V) : Prop :=
  ∃ es kept u b, m.Lists before es ∧ Asks (total fun t e => ask t (shown e)) t es (.ok (kept, u)) ∧
    m'.Holds kept ∧ r = .retained b u ∧ (b = true ↔ m.Loses m')

variable [DecidableEq K]

/-- The first entry that an item stands for is discarded, if there is one. -/
def Discards (facet : Facet K V α) (before : K → K → Prop) (a : α) (m m' : Plain K V) : Prop :=
  (∃ k v, m k = some v ∧ facet.fits (k, v) a ∧
    (∀ k' v', m k' = some v' → facet.fits (k', v') a → k' = k ∨ before k k') ∧
    m' = m.remove k) ∨
  (∀ k v, m k = some v → ¬ facet.fits (k, v) a) ∧ m' = m

/-- What an operation on a view of a plain map gives back and leaves. -/
def ViewOp.Means (facet : Facet K V α) (before : K → K → Prop) (m : Plain K V) (r : Result K V)
    (m' : Plain K V) : ViewOp α → Prop
  | .len => Counts before m r ∧ m' = m
  | .isEmpty => TellsEmpty m r ∧ m' = m
  | .contains a =>
    (∃ b, r = .flag b ∧ (b = true ↔ ∃ k v, m k = some v ∧ facet.fits (k, v) a)) ∧ m' = m
  | .iter => (∃ es, m.Lists before es ∧ r = facet.items (es.map facet.shown)) ∧ m' = m
  | .remove a => Flags m r m' ∧ Discards facet before a m m'
  | .removeAll as =>
    Flags m r m' ∧
      ∀ k v, m' k = some v ↔ m k = some v ∧ ∀ a ∈ as, ¬ facet.covers a (k, v)
  | .retain ask t => Retains before facet.shown ask t m r m'
  | .clear => r = .done ∧ m' = Plain.empty
  | .insert _ => r = .refused (.unsupported facet.view .insert) ∧ m' = m
  | .insertAll _ => r = .refused (.unsupported facet.view .insertAll) ∧ m' = m

/-- What an operation on a plain map gives back and leaves. -/
def Op.Means [BEq V] (before : K → K → Prop) (m : Plain K V) (r : Result K V) (m' : Plain K V) :
    Op K V → Prop
  | .get k => r = .value (m k) ∧ m' = m
  | .containsKey k => r = .flag (m k).isSome ∧ m' = m
  | .len => Counts before m r ∧ m' = m
  | .isEmpty => TellsEmpty m r ∧ m' = m
  | .iter => (∃ es, m.Lists before es ∧ r = .entries es) ∧ m' = m
  | .put k v => r = .value (m k) ∧ m' = m.put k v
  | .remove k => r = .value (m k) ∧ m' = m.remove k
  | .putAll es => r = .done ∧ m' = m.putAll es
  | .clear => r = .done ∧ m' = Plain.empty
  | .retain ask t => Retains before id ask t m r m'
  | .keys op => op.Means keyFacet before m r m'
  | .values op => op.Means valueFacet before m r m'
  | .entries op => op.Means entryFacet before m r m'

/-- A run of operations on a plain map: each result with the map that the operation leaves, and
with a version that counts the writes. -/
inductive Follows [BEq V] (before : K → K → Prop) :
    Plain K V → Nat → List (Op K V) → List (Result K V × Plain K V × Nat) → Prop
  | nil (m : Plain K V) (n : Nat) : Follows before m n [] []
  | cons {m m' : Plain K V} {n n' : Nat} {op : Op K V} {ops : List (Op K V)} {r : Result K V}
    {rest : List (Result K V × Plain K V × Nat)} :
    op.Means before m r m' → n' = (if op.writes then n + 1 else n) →
      Follows before m' n' ops rest → Follows before m n (op :: ops) ((r, m', n') :: rest)

end CowMap

end SharedCells
