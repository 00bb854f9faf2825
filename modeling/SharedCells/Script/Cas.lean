import SharedCells.Cas.Race
import SharedCells.Script.Run
import SharedCells.Text.Describe

/-!
# Scripts over one exchangeable cell

Such a script works on one cell of words or of references. References name allocations by their
place, and the script has a heap that says what each allocation holds. While a function of the
script computes a candidate, a rival may store a value into the cell, and the function may panic.

* `Held` says how the functions of a script act on what a cell holds.
* `attempt` takes one call through one attempt, by steps of `Cas.Race`, with the rival of that
  attempt; `drive` takes it to its end.
* `CasScript.run` answers a script: for each request the answer and the value of the cell.
-/

namespace SharedCells.Script

open Cas

/-- What the allocations hold, in order of allocation. -/
abbrev Heap := List Int64

/-- A function of the value of a cell. `W` is the type of operands, `X` that of values as a
script writes them. -/
inductive Fn (W X : Type) where
  | add (w : W)
  | mul (w : W)
  | xor (w : W)
  | set (x : X)
  | id

/-- A reference as a script writes it. -/
inductive RefValue where
  | known (a : Address)
  /-- A new allocation, each time it is read. -/
  | fresh (payload : Int64)

/-- Values that a cell of a script may hold. `Y` is the type of values as answers show them. -/
class Held (V : Type) (W X Y : outParam Type) where
  /-- Reads a value that a script writes. -/
  read : X → Heap → V × Heap
  apply : Fn W X → V → Heap → V × Heap
  /-- The value as answers show it. -/
  shown : Heap → V → Y

class Word (V : Type) extends Add V, Mul V, XorOp V

instance : Word UInt8 where
instance : Word UInt16 where
instance : Word UInt32 where
instance : Word UInt64 where
instance : Word Int8 where
instance : Word Int16 where
instance : Word Int32 where
instance : Word Int64 where

/-- A truth value is a word of one bit. -/
instance : Word Bool where
  add := Bool.xor
  mul := Bool.and
  xor := Bool.xor

instance {V : Type} [Word V] : Held V V V V where
  read x heap := (x, heap)
  apply
    | .add w, v, heap => (v + w, heap)
    | .mul w, v, heap => (v * w, heap)
    | .xor w, v, heap => (v ^^^ w, heap)
    | .set x, _, heap => (x, heap)
    | .id, v, heap => (v, heap)
  shown _ v := v

def payload (heap : Heap) (a : Address) : Int64 := heap[a.index]?.getD 0

def allocate (heap : Heap) (n : Int64) : Address × Heap := (⟨heap.length⟩, heap ++ [n])

def readRef : RefValue → Heap → Address × Heap
  | .known a, heap => (a, heap)
  | .fresh n, heap => allocate heap n

instance : Held Address Int64 RefValue (Nat × Int64) where
  read := readRef
  apply
    | .add w, a, heap => allocate heap (payload heap a + w)
    | .mul w, a, heap => allocate heap (payload heap a * w)
    | .xor w, a, heap => allocate heap (payload heap a ^^^ w)
    | .set x, _, heap => readRef x heap
    | .id, a, heap => (a, heap)
  shown heap a := (a.index, payload heap a)

def present (result : Address × Heap) : Option Address × Heap := (some result.1, result.2)

/-- Reads a reference that may be absent. -/
def readRef? : Option RefValue → Heap → Option Address × Heap
  | none, heap => (none, heap)
  | some x, heap => present (readRef x heap)

/-- What a reference leads to; zero for an absent one. -/
def payload? (heap : Heap) (a? : Option Address) : Int64 := (a?.map (payload heap)).getD 0

instance : Held (Option Address) Int64 (Option RefValue) (Option (Nat × Int64)) where
  read := readRef?
  apply
    | .add w, a?, heap => present (allocate heap (payload? heap a? + w))
    | .mul w, a?, heap => present (allocate heap (payload? heap a? * w))
    | .xor w, a?, heap => present (allocate heap (payload? heap a? ^^^ w))
    | .set x, _, heap => readRef? x heap
    | .id, a?, heap => (a?, heap)
  shown heap a? := a?.map fun a => (a.index, payload heap a)

/-- The three ways to apply a function to a cell. -/
inductive UpdateMode where
  | update
  | getAndUpdate
  | updateWithBackoff
deriving DecidableEq

/-- What a call is after in such a mode. -/
def UpdateMode.goal {V : Type} : UpdateMode → Goal V
  | update | updateWithBackoff => .update
  | getAndUpdate => .getAndUpdate

inductive CasRequest (W X : Type) where
  | load
  | compareAndSet (current new : X)
  | same (a b : X)
  | apply (mode : UpdateMode) (fn : Fn W X) (rivals : List (Option X)) (panicAt : Option Nat)
      (backoff : Backoff)
  | getOrSetIf (expected : X) (supply : List X) (rivals : List (Option X)) (panicAt : Option Nat)
  | policy (backoff : Backoff)
  /-- Threads that each apply a function a number of times. -/
  | race (mode : UpdateMode) (threads times : Nat) (fn : Fn W X) (backoff : Backoff)

/-- The answer to a request; a value seen is absent for a function that is given none. -/
inductive CasAnswer (Y : Type) where
  | value (y : Y)
  | flag (b : Bool)
  | called (value : Y) (seen : List (Option Y))
  | panicked (p : Panic)
  | policy (backoff : Backoff)
  | done

instance : Text.Describe Backoff where
  describe b := Text.record "Backoff"
    [("max_spin_shift", Text.describe b.maxSpinShift.toNat),
      ("yield_after", Text.describe b.yieldAfter.toNat)]

/-- What the functions of a script share: the heap, and the values given on each attempt. -/
structure Notes (V : Type) where
  heap : Heap
  seen : List (Option V)

/-- The objects of a script over a cell. -/
structure CasScript (V : Type) where
  cell : V
  heap : Heap

namespace CasScript

variable {V W X Y : Type} [DecidableEq V] [Held V W X Y]

/-- The panic of a function of a script. -/
def functionPanic : Panic := ⟨"function panic"⟩

/-- The panic of a function that is to supply a value and has none. -/
def supplyPanic : Panic := ⟨"index out of bounds: the len is 0 but the index is 0"⟩

/-- A call that applies a function. -/
def applying (mode : UpdateMode) (fn : Fn W X) (panicAt : Option Nat) (backoff : Backoff) :
    Call (Notes V) V where
  goal := mode.goal
  propose notes v :=
    let (candidate, heap) := Held.apply fn v notes.heap
    (if panicAt = some notes.seen.length then .error functionPanic else .ok candidate,
      ⟨heap, notes.seen ++ [some v]⟩)
  backoff := if mode = .updateWithBackoff then some backoff else none

/-- A call that supplies values while the cell holds an expected one; the last one is supplied
again and again. With no value to supply the function panics. -/
def supplying (expected : V) (supply : List X) (panicAt : Option Nat) : Call (Notes V) V where
  goal := .getOrSetIf expected
  propose notes _ :=
    let n := notes.seen.length
    let seen := notes.seen ++ [none]
    if panicAt = some n then (.error functionPanic, ⟨notes.heap, seen⟩)
    else
      match supply[min n (supply.length - 1)]? with
      | none => (.error supplyPanic, ⟨notes.heap, seen⟩)
      | some x =>
        let (candidate, heap) := Held.read x notes.heap
        (.ok candidate, ⟨heap, seen⟩)
  backoff := none

/-- The current phase of the only caller; none once its call has ended. -/
def phase? (r : Race (Notes V) V) : Option (Phase V) :=
  match r.callers with
  | [⟨phase, _, _, _ :: _, _⟩] => some phase
  | _ => none

/-- A step of the only caller. -/
def go (r : Race (Notes V) V) : Race (Notes V) V := r.step (.caller 0)

/-- The store of a rival, if there is one. -/
def rivalStores (r : Race (Notes V) V) : Option X → Race (Notes V) V
  | none => r
  | some x =>
    let (v, heap) := Held.read x r.state.heap
    { r with state := { r.state with heap } }.step (.rival v)

/-- One attempt of the only caller: it reads the cell, and then its function runs. The rival
stores before a supplier yields its value and after any other function has computed one. -/
def attempt (supplies : Bool) (r : Race (Notes V) V) (rival : Option X) : Race (Notes V) V :=
  let r := go r
  match phase? r with
  | none => r
  | some _ =>
    let r := if supplies then go (rivalStores r rival) else rivalStores (go r) rival
    let r := go r
    match phase? r with
    | some .pausing => go r
    | _ => r

/-- Attempts with one rival after another until the call has ended; the last has none. -/
def drive (supplies : Bool) (r : Race (Notes V) V) : List (Option X) → Race (Notes V) V
  | [] => attempt supplies r none
  | rival :: rivals =>
    let r := attempt supplies r rival
    match phase? r with
    | none => r
    | some _ => drive supplies r rivals

/-- The answer of the only caller, and the cell after it. -/
def concluded (r : Race (Notes V) V) : Option (CasAnswer Y × CasScript V) :=
  let st : CasScript V := ⟨r.cell, r.state.heap⟩
  match r.callers with
  | [⟨_, _, _, [], [.ok v]⟩] =>
    some (.called (Held.shown st.heap v) (r.state.seen.map fun v? => v?.map (Held.shown st.heap)),
      st)
  | [⟨_, _, _, [], [.error p]⟩] => some (.panicked p, st)
  | _ => none

/-- Takes one call from its start to its end. -/
def callAlone (st : CasScript V) (supplies : Bool) (call : Call (Notes V) V)
    (rivals : List (Option X)) : Option (CasAnswer Y × CasScript V) :=
  concluded (drive supplies (.start st.cell ⟨st.heap, []⟩ [[call]]) rivals)

/-- Applies a function once, without a rival. Calls of several threads come to as many of these
one after another, because their function commutes and an exchange that is lost is repeated. -/
def applyOnce (mode : UpdateMode) (fn : Fn W X) (backoff : Backoff) (st : CasScript V) :
    CasScript V :=
  ((st.callAlone false (applying mode fn none backoff) []).map Prod.snd).getD st

def step (st : CasScript V) : CasRequest W X → Option (CasAnswer Y × CasScript V)
  | .load => some (.value (Held.shown st.heap st.cell), st)
  | .compareAndSet current new =>
    let (current, heap) := Held.read current st.heap
    let (new, heap) := Held.read new heap
    let (installed, cell) := compareAndSet st.cell current new
    some (.flag installed, ⟨cell, heap⟩)
  | .same a b =>
    let (a, heap) := Held.read a st.heap
    let (b, heap) := Held.read b heap
    some (.flag (decide ((a : V) = b)), ⟨st.cell, heap⟩)
  | .apply mode fn rivals panicAt backoff =>
    st.callAlone false (applying mode fn panicAt backoff) rivals
  | .getOrSetIf expected supply rivals panicAt =>
    let (expected, heap) := Held.read expected st.heap
    { st with heap }.callAlone true (supplying expected supply panicAt) rivals
  | .policy backoff => some (.policy backoff, st)
  | .race mode threads times fn backoff =>
    some (.done, (threads * times).repeat (applyOnce mode fn backoff) st)

/-- Answers a script over a cell with a first value. -/
def run (initial : X) (requests : List (CasRequest W X)) : Option (List (CasAnswer Y × Y)) :=
  let (cell, heap) := (Held.read initial [] : V × Heap)
  runAll (fun (st : CasScript V) request =>
    (step st request).map fun (answer, st) => ((answer, Held.shown st.heap st.cell), st))
    ⟨cell, heap⟩ requests

end CasScript

end SharedCells.Script
