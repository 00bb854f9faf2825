import SharedCells.CopyOnWrite.Basic

/-!
# Writers in a race

Several threads write to one cell. A write takes seven steps, and the steps of different threads
come in any order: take the writer lock, load the published contents, copy them, mutate the copy,
store it, count the version, release the lock. Only the lock makes a thread wait. A write whose
copy or mutation fails releases the lock and leaves nothing.

* `Race.step` is one step of one thread; a thread that waits for the lock or has nothing left to
  write stays where it is.
* `Race.run` follows a schedule, a list of the threads that take the next step.
* `Race.log` lists the writes stored so far, the latest first.
* `Race.finish` is one way to the end, for threads that give up when a write fails.
-/

namespace SharedCells.CopyOnWrite

variable {C : Type}

/-- A mutation as a thread applies it: no result when it throws or gives back an error. -/
abbrev Job (C : Type) := C → Option C

/-- How far a thread has come with its write. -/
inductive Stage (C : Type) where
  | idle
  | admitted
  /-- It has loaded the published contents. -/
  | loaded (c : C)
  /-- It has copied them; the number is that of the copy. -/
  | copied (number : Nat) (working : C)
  | mutated (number : Nat) (working : C)
  /-- It has stored the copy but not counted it. -/
  | stored
  | counted
  /-- The copy or the mutation has failed. -/
  | abandoned

/-- A thread with the writes that it has still to do, the current one first. -/
structure Writer (C : Type) where
  /-- How far the current write has come. -/
  stage : Stage C
  jobs : List (Job C)

structure Landing (C : Type) where
  writer : Nat
  /-- The number of the copy that it mutated. -/
  copy : Nat
  job : Job C

/-- A cell with the threads that write to it. -/
structure Race (C : Type) where
  cell : CopyOnWrite C
  supply : Supply
  /-- The thread that holds the writer lock. -/
  holder : Option Nat
  writers : List (Writer C)
  /-- The writes stored so far, the latest first. -/
  log : List (Landing C)

namespace Race

/-- A race in which nobody has started yet. -/
def start (cell : CopyOnWrite C) (supply : Supply) (jobs : List (List (Job C))) : Race C :=
  ⟨cell, supply, none, jobs.map (Writer.mk .idle), []⟩

/-- The race after a thread came to another stage. -/
def goTo (r : Race C) (i : Nat) (stage : Stage C) : Race C :=
  { r with writers := r.writers.modify i fun w => { w with stage } }

/-- The race after a thread ended its write and released the lock. -/
def release (r : Race C) (i : Nat) : Race C :=
  { r with
    holder := none
    writers := r.writers.modify i fun w => { stage := .idle, jobs := w.jobs.tail } }

/-- One step of a thread whose current write is given. -/
def advance (r : Race C) (i : Nat) (job : Job C) : Stage C → Race C
  | .idle =>
    match r.holder with
    | none => goTo { r with holder := some i } i .admitted
    | some _ => r
  | .admitted => r.goTo i (.loaded r.cell.contents)
  | .loaded c =>
    match r.cell.copier.copy r.supply c with
    | (.error _, supply) => goTo { r with supply } i .abandoned
    | (.ok working, supply) => goTo { r with supply } i (.copied supply.copies working)
  | .copied number working =>
    match job working with
    | none => r.goTo i .abandoned
    | some working => r.goTo i (.mutated number working)
  | .mutated number working =>
    let (published, supply) := r.supply.allocate working
    goTo { r with
      cell := { r.cell with published }
      supply
      log := ⟨i, number, job⟩ :: r.log } i .stored
  | .stored =>
    goTo { r with cell := { r.cell with version := r.cell.version + 1 } } i .counted
  | .counted => r.release i
  | .abandoned => r.release i

def step (r : Race C) (i : Nat) : Race C :=
  match r.writers[i]? with
  | some ⟨stage, job :: _⟩ => r.advance i job stage
  | _ => r

def run (r : Race C) (schedule : List Nat) : Race C := schedule.foldl step r

/-- The race after a thread has gone on, for at most so many steps, until it had nothing left to
write or gave up after a write that failed, and whether it gave up. -/
def pursue (r : Race C) (i : Nat) : (steps : Nat) → Bool × Race C
  | 0 => (false, r)
  | steps + 1 =>
    match r.writers[i]? with
    | some ⟨.abandoned, _⟩ => (true, r.step i)
    | some ⟨_, _ :: _⟩ => pursue (r.step i) i steps
    | _ => (false, r)

/-- The race after all threads have come to their end one after another, and whether one of them
gave up. A write takes seven steps. -/
def finish (r : Race C) : Bool × Race C :=
  r.writers.zipIdx.foldl (fun (gaveUp, r) (w, i) =>
    let (stops, r) := r.pursue i (8 * w.jobs.length)
    (gaveUp || stops, r)) (false, r)

end Race

end SharedCells.CopyOnWrite
