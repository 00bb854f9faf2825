import SharedCells.Lazy.Call

/-!
# What a resettable reference should do for one thread

What a thread gets from a resettable reference that nobody else uses is told by an `Account`: how
often the initializer was called, how often the reference was reset, and what its current
generation has come to. `Operation.perform` is what a call does to the account.
-/

namespace SharedCells.Lazy

variable {T E : Type}

/-- The calls that a user makes on a resettable reference. -/
inductive Operation where
  | get (interruptible : Bool)
  | reset
  | cancel
  | tryGet
  | isInitialized
  | isCancelled
  | generation

def Operation.call : Operation → Call
  | get interruptible => .get ⟨interruptible, true⟩
  | reset => .reset
  | cancel => .cancel
  | tryGet => .tryGet
  | isInitialized => .isInitialized
  | isCancelled => .isCancelled
  | generation => .generation

/-- What a generation has come to. -/
inductive Era (T E : Type) where
  | unresolved
  /-- It has the outcome of one call of the initializer. -/
  | resolved (o : Outcome T E)
  | cancelled

namespace Era

def value? : Era T E → Option (Shared T)
  | resolved (.ok v) => some v
  | _ => none

def isCancelled : Era T E → Bool
  | cancelled => true
  | _ => false

/-- How many calls of the initializer the generation has taken. -/
def taken : Era T E → Nat
  | resolved _ => 1
  | _ => 0

/-- The holder of such a generation. -/
def holder : Era T E → Holder T E
  | unresolved => .fresh
  | resolved o => ⟨.complete, false, some o, false, []⟩
  | cancelled => .cancelled

theorem peek_holder (e : Era T E) : e.holder.peek = e.value? := by
  cases e with
  | resolved o => cases o <;> rfl
  | _ => rfl

theorem isCancelled_holder (e : Era T E) : e.holder.isCancelled = e.isCancelled := by
  cases e <;> rfl

theorem eq_of_isCancelled (e : Era T E) (h : e.isCancelled = true) : e = .cancelled := by
  cases e with
  | cancelled => rfl
  | _ => cases h

theorem retired_holder (e : Era T E) : { e.holder with retired := false } = e.holder := by
  cases e <;> rfl

end Era

/-- What a reference has come to. -/
structure Account (T E : Type) where
  calls : Nat
  resets : Nat
  era : Era T E

namespace Account

variable (endings : Nat → Ending T E)

/-- A reference on which no call was made. -/
def new : Account T E := ⟨0, 0, .unresolved⟩

/-- The outcome of the current generation, which calls the initializer if that is needed. -/
def resolve (a : Account T E) : Outcome T E × Account T E :=
  match a.era with
  | .unresolved =>
    let o := match endings (a.calls + 1) with
      | .value v => .ok ⟨a.calls, v⟩
      | .error e => .error (.initialization ⟨a.calls, e⟩)
      | .panic p => .error (.panicked ⟨a.calls, p.message⟩)
    (o, { a with calls := a.calls + 1, era := .resolved o })
  | .resolved o => (o, a)
  | .cancelled => (.error .cancelled, a)

variable {endings} in
/-- The outcome that is called for is the one that a holder would publish. -/
theorem resolve_unresolved {a : Account T E} (h : a.era = .unresolved) :
    a.resolve endings = ((endings (a.calls + 1)).outcome a.calls,
      { a with
        calls := a.calls + 1
        era := .resolved ((endings (a.calls + 1)).outcome a.calls) }) := by
  rw [resolve, h]
  cases endings (a.calls + 1) <;> rfl

end Account

/-- The answer to an operation, and what the reference has come to then. -/
def Operation.perform (endings : Nat → Ending T E) (a : Account T E) :
    Operation → Answer T E × Account T E
  | get _ => (.outcome (a.resolve endings).1, (a.resolve endings).2)
  | reset =>
    if a.era.isCancelled then (.outcome (.error .cancelled), a)
    else
      (.outcome (a.resolve endings).1,
        ⟨(a.resolve endings).2.calls, a.resets + 1, .unresolved⟩)
  | cancel => (.flag (!a.era.isCancelled), { a with era := .cancelled })
  | tryGet => (.value a.era.value?, a)
  | isInitialized => (.flag a.era.value?.isSome, a)
  | isCancelled => (.flag a.era.isCancelled, a)
  | generation => (.count a.resets, a)

/-- The answers to a program, and what the reference has come to then. -/
def Account.performAll (endings : Nat → Ending T E) (a : Account T E) :
    List Operation → List (Answer T E) × Account T E
  | [] => ([], a)
  | op :: ops =>
    let (answer, a) := op.perform endings a
    let (answers, a) := a.performAll endings ops
    (answer :: answers, a)

section Accounts

variable {endings : Nat → Ending T E} {a : Account T E}

theorem Operation.perform_cancelled (op : Operation) (h : a.era = .cancelled) :
    (op.perform endings a).2 = a := by
  obtain ⟨calls, resets, era⟩ := a
  cases h
  cases op <;> rfl

/-- While a reference is not cancelled, the initializer was called once for every reset, and once
more if the current generation has an outcome. -/
def Account.Balanced (a : Account T E) : Prop :=
  a.era.isCancelled = false → a.calls = a.resets + a.era.taken

theorem Account.Balanced.perform (h : a.Balanced) (op : Operation) :
    (op.perform endings a).2.Balanced := by
  obtain ⟨calls, resets, era⟩ := a
  have hresolve : (Account.resolve endings ⟨calls, resets, era⟩).2.Balanced := by
    cases era with
    | unresolved => exact fun _ => congrArg (· + 1) (h rfl)
    | resolved o => exact h
    | cancelled => exact h
  cases op with
  | get interruptible => exact hresolve
  | reset =>
    cases era with
    | cancelled => exact h
    | unresolved => exact fun _ => congrArg (· + 1) (h rfl)
    | resolved o => exact fun _ => h rfl
  | cancel => exact fun hlive => nomatch hlive
  | _ => exact h

theorem Account.Balanced.performAll (h : a.Balanced) (ops : List Operation) :
    (a.performAll endings ops).2.Balanced := by
  induction ops generalizing a with
  | nil => exact h
  | cons op ops ih => exact ih (h.perform op)

end Accounts

end SharedCells.Lazy
