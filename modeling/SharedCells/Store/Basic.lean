import SharedCells.Panic

/-!
# Stores

A copy-on-write collection publishes a plain store: a finite map (`MapStore`) or a finite set
(`SetStore`). A store lists its content in some order of its own, its *iteration order*; it is
asked and changed by key.

`sift` is how every store drops entries: it asks a predicate about each one, once and in the
order of the list. The predicate carries a state of its own and may panic, which discards what
was kept so far.
-/

namespace SharedCells.Store

variable {σ α : Type}

/-- The members of a list that a stateful predicate keeps, and the predicate's last state. -/
def sift (ask : σ → α → Except Panic (Bool × σ)) : σ → List α → Except Panic (List α × σ)
  | s, [] => .ok ([], s)
  | s, a :: as =>
    match ask s a with
    | .error p => .error p
    | .ok (keep, s) =>
      match sift ask s as with
      | .error p => .error p
      | .ok (kept, s) => .ok (if keep then a :: kept else kept, s)

theorem sift_sublist {ask : σ → α → Except Panic (Bool × σ)} {s s' : σ} {as kept : List α}
    (h : sift ask s as = .ok (kept, s')) : kept.Sublist as := by
  induction as generalizing s s' kept with
  | nil => cases h; exact .slnil
  | cons a as ih =>
    rw [sift] at h
    split at h
    · cases h
    · rename_i keep s₁ _
      split at h
      · cases h
      · rename_i kept' s₂ h'
        cases h
        cases keep
        · exact (ih h').cons a
        · exact (ih h').cons_cons a

/-- A finite map that lists its entries in an order of its own. -/
class MapStore (M : Type) (K V : outParam Type) where
  empty : M
  /-- The entries in iteration order. -/
  entries : M → List (K × V)
  size : M → Nat
  lookup : M → K → Option V
  /-- Puts a value under a key; also gives the value that it replaced. -/
  insert : M → K → V → M × Option V
  /-- Drops the entry of a key; also gives its value. -/
  erase : M → K → M × Option V
  clear : M → M
  /-- Drops the entries that a predicate does not keep, asking in iteration order. -/
  retain {σ : Type} : (σ → K × V → Except Panic (Bool × σ)) → σ → M → Except Panic (M × σ)

/-- A finite set that lists its items in an order of its own. -/
class SetStore (S : Type) (α : outParam Type) where
  empty : S
  /-- The items in iteration order. -/
  items : S → List α
  size : S → Nat
  contains : S → α → Bool
  /-- Adds an item; also tells whether it is new. -/
  insert : S → α → S × Bool
  /-- Drops an item; also tells whether it was there. -/
  erase : S → α → S × Bool
  clear : S → S
  /-- Drops the items that a predicate does not keep, asking in iteration order. -/
  retain {σ : Type} : (σ → α → Except Panic (Bool × σ)) → σ → S → Except Panic (S × σ)

/-- The map that a list of entries makes: of two entries with one key the later counts. -/
def MapStore.ofList {M K V : Type} [MapStore M K V] (entries : List (K × V)) : M :=
  entries.foldl (fun m (k, v) => (MapStore.insert m k v).1) MapStore.empty

/-- The set that a list of items makes. -/
def SetStore.ofList {S α : Type} [SetStore S α] (items : List α) : S :=
  items.foldl (fun s a => (SetStore.insert s a).1) SetStore.empty

end SharedCells.Store
