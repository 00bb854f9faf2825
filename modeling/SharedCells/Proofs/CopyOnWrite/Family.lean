import SharedCells.Proofs.CopyOnWrite.Requests

/-!
# Cells that share a copy function

A family has the cells that were made with one copy function, their clones, the clones of those, and
so on. The copy function may change what it copies, answer differently each time, and panic; so a
copy made once too often, or in the wrong place, shows in the contents.

* `Family.step` is one event: a construction, a clone, a copy of the contents, or any call of
  `Comprises`. Next to each cell a family keeps what the cell is a copy of and the writes that it
  published.
* `Member.Accounted` says what that tells about a cell, and `Family.copied` how many copies the
  events come to. `Accounted.step` is about one event.
* `Gains` says how a cell begins, and `step_continues` that what is kept next to it stays.
* `run_accounted` is the result, for every copy function and every run.
-/

namespace SharedCells.CopyOnWrite

variable {C : Type}

/-- A call, with the mutation of its write, if it makes one. -/
structure Request (C : Type) where
  job? : Option (Job C)
  act : Act C
  comprises : Comprises job? act

inductive Event (C : Type) where
  | construct (initial : C)
  | clone (i : Nat)
  | copyCurrent (i : Nat)
  | call (i caller : Nat) (request : Request C)

/-- What a copy is made for. -/
inductive Purpose where
  | construction
  | clone
  | copyCurrent
  | write
  deriving DecidableEq

/-- What an event asks for a copy for, if it does. -/
def Event.purpose : Event C → Option Purpose
  | construct _ => some .construction
  | clone _ => some .clone
  | copyCurrent _ => some .copyCurrent
  | call _ _ request => request.job?.map fun _ => .write

/-! ## Cells of a family -/

/-- A cell with its history. -/
structure Member (C : Type) where
  cell : CopyOnWrite C
  /-- What the cell is a copy of: the initial value, or what the cell that was cloned published. -/
  source : C
  /-- The number of that copy. -/
  number : Nat
  /-- The writes that succeeded, the latest first. -/
  landings : List (Landing C)

namespace Member

variable {copy : Nat → C → Except Panic C} {m : Member C}

/-- The cell after a call. A write that succeeds lands on the copy made for it. -/
def heed (m : Member C) (caller : Nat) (request : Request C) (s : Supply) : Member C :=
  let called := request.act m.cell s
  { m with
    cell := called.cell
    landings :=
      match request.job? with
      | none => m.landings
      | some job =>
        if called.returned then ⟨caller, s.copies + 1, job⟩ :: m.landings else m.landings }

/-- What a cell holds is one copy of its source, copied once more and mutated by each write that
succeeded, and the version counts these. -/
structure Accounted (copy : Nat → C → Except Panic C) (m : Member C) : Prop where
  copier : m.cell.copier = .custom copy
  content : ∃ c, copy m.number m.source = .ok c ∧
    Replays (.custom copy) c m.landings m.cell.contents
  version : m.cell.version = m.landings.length

theorem Accounted.copyCurrent (h : Accounted copy m) (s : Supply) :
    m.cell.copyCurrent s =
      (copy (s.copies + 1) m.cell.contents, { s with copies := s.copies + 1 }) := by
  rw [CopyOnWrite.copyCurrent, h.copier]
  rfl

/-- The same cell at a later moment, with perhaps more writes. -/
structure Continues (m m' : Member C) : Prop where
  source : m'.source = m.source
  number : m'.number = m.number
  landings : m.landings <:+ m'.landings

theorem Continues.refl (m : Member C) : Continues m m := ⟨rfl, rfl, List.suffix_refl _⟩

theorem Continues.trans {m m' m'' : Member C} (h : Continues m m') (h' : Continues m' m'') :
    Continues m m'' :=
  ⟨h'.source.trans h.source, h'.number.trans h.number, h.landings.trans h'.landings⟩

theorem continues_heed (m : Member C) (caller : Nat) (request : Request C) (s : Supply) :
    Continues m (m.heed caller request s) := by
  refine ⟨rfl, rfl, ?_⟩
  rw [Member.heed]
  dsimp only
  split
  · exact List.suffix_refl _
  · split
    · exact List.suffix_cons _ _
    · exact List.suffix_refl _

theorem heed_eq_self {request : Request C} {s : Supply} (caller : Nat)
    (hcell : (request.act m.cell s).cell = m.cell)
    (hquiet : request.job? = none ∨ (request.act m.cell s).returned = false) :
    m.heed caller request s = m := by
  rw [Member.heed, hcell]
  rcases hquiet with h | h <;> rw [h]
  cases request.job? <;> rfl

/-- A call that makes a write asks for one copy, whatever comes of it, and any other for none. -/
theorem Accounted.heed (h : Accounted copy m) (caller : Nat) (request : Request C) (s : Supply) :
    Accounted copy (m.heed caller request s) ∧
      (request.act m.cell s).supply.copies = s.copies + request.job?.toList.length := by
  have hdoes := request.comprises.does m.cell s
  cases hjob? : request.job? with
  | none =>
    rw [hjob?] at hdoes
    obtain ⟨hcell, hsupply⟩ := hdoes
    rw [heed_eq_self caller hcell (Or.inl hjob?), hsupply]
    exact ⟨h, rfl⟩
  | some job =>
    rw [hjob?] at hdoes
    have hact : request.act m.cell s = job.act m.cell s := hdoes
    have hcopy := h.copyCurrent s
    cases hw : copy (s.copies + 1) m.cell.contents with
    | error p =>
      rw [hw] at hcopy
      rw [Job.act_of_copy_error hcopy] at hact
      rw [heed_eq_self caller (by rw [hact]) (Or.inr (by rw [hact])), hact]
      exact ⟨h, rfl⟩
    | ok w =>
      rw [hw] at hcopy
      cases hw' : job w with
      | none =>
        rw [Job.act_of_none hcopy hw'] at hact
        rw [heed_eq_self caller (by rw [hact]) (Or.inr (by rw [hact])), hact]
        exact ⟨h, rfl⟩
      | some w' =>
        rw [Job.act_of_some hcopy hw'] at hact
        obtain ⟨c, hc, hreplays⟩ := h.content
        rw [Member.heed, hact, hjob?]
        exact ⟨⟨h.copier, ⟨c, hc, .cons hreplays hw hw'⟩, congrArg Nat.succ h.version⟩, rfl⟩

end Member

/-! ## Events -/

structure Family (C : Type) where
  members : List (Member C)
  supply : Supply
  /-- The events so far, the latest first. -/
  log : List (Event C)

namespace Family

variable {copy : Nat → C → Except Panic C} {f : Family C} {s : Supply}

/-- A family without cells. -/
def start (s : Supply) : Family C := ⟨[], s, []⟩

/-- A cell made of a value joins the family, if its making did not panic. -/
def join (f : Family C) (source : C) (made : Except Panic (CopyOnWrite C) × Supply) : Family C :=
  { f with
    members := match made.1 with
      | .error _ => f.members
      | .ok cell => f.members ++ [⟨cell, source, f.supply.copies + 1, []⟩]
    supply := made.2 }

def note (f : Family C) (e : Event C) : Family C := { f with log := e :: f.log }

/-- One event. Nothing happens to a cell that is not there. -/
def step (copy : Nat → C → Except Panic C) (f : Family C) (e : Event C) : Family C :=
  match e with
  | .construct initial => (f.join initial (withCopier initial (.custom copy) f.supply)).note e
  | .clone i =>
    match f.members[i]? with
    | none => f
    | some m => (f.join m.cell.contents (m.cell.clone f.supply)).note e
  | .copyCurrent i =>
    match f.members[i]? with
    | none => f
    | some m => note { f with supply := (m.cell.copyCurrent f.supply).2 } e
  | .call i caller request =>
    match f.members[i]? with
    | none => f
    | some m =>
      note { f with
        members := f.members.set i (m.heed caller request f.supply)
        supply := (request.act m.cell f.supply).supply } e

def run (copy : Nat → C → Except Panic C) (f : Family C) (events : List (Event C)) : Family C :=
  events.foldl (step copy) f

/-- The events that asked for a copy for one purpose. -/
def asked (f : Family C) (purpose : Purpose) : Nat :=
  f.log.countP fun e => e.purpose = some purpose

/-- The events that asked for a copy. -/
def copied (f : Family C) : Nat :=
  f.asked .construction + f.asked .write + f.asked .clone + f.asked .copyCurrent

/-- All copies are those that the events asked for, and each cell shows which. -/
structure Accounted (copy : Nat → C → Except Panic C) (s : Supply) (f : Family C) : Prop where
  copies : f.supply.copies = s.copies + f.copied
  members : ∀ m ∈ f.members, m.Accounted copy

theorem copied_note (f : Family C) (e : Event C) :
    (f.note e).copied = f.copied + e.purpose.toList.length := by
  simp only [copied, asked, note, List.countP_cons]
  rcases e.purpose with _ | ⟨_ | _ | _ | _⟩ <;> simp <;> omega

theorem Accounted.note {g : Family C} {e : Event C} (h : Accounted copy s f) (hlog : g.log = f.log)
    (hcopies : g.supply.copies = f.supply.copies + e.purpose.toList.length)
    (hmembers : ∀ m ∈ g.members, m.Accounted copy) : Accounted copy s (g.note e) := by
  have hcopied : g.copied = f.copied := by simp only [copied, asked, hlog]
  refine ⟨?_, hmembers⟩
  calc g.supply.copies = s.copies + f.copied + e.purpose.toList.length := by rw [hcopies, h.copies]
    _ = s.copies + (g.note e).copied := by rw [copied_note, hcopied, Nat.add_assoc]

/-- A cell is made with one copy, whether that panics or not. -/
theorem Accounted.join (h : Accounted copy s f) (source : C) :
    let g := f.join source (withCopier source (.custom copy) f.supply)
    g.supply.copies = f.supply.copies + 1 ∧ ∀ m ∈ g.members, m.Accounted copy := by
  rw [withCopier, Copier.copy]
  cases hc : copy (f.supply.copies + 1) source with
  | error p => exact ⟨rfl, h.members⟩
  | ok c =>
    refine ⟨rfl, fun m hm => ?_⟩
    rcases List.mem_append.1 hm with hm | hm
    · exact h.members m hm
    · rw [List.mem_singleton.1 hm]
      exact ⟨rfl, ⟨c, hc, .nil⟩, rfl⟩

theorem Accounted.step (h : Accounted copy s f) (e : Event C) :
    Accounted copy s (f.step copy e) := by
  have hthere : ∀ {i : Nat} {m : Member C}, f.members[i]? = some m → m.Accounted copy :=
    fun hm => h.members _ (List.mem_of_getElem? hm)
  cases e with
  | construct initial =>
    obtain ⟨hcopies, hmembers⟩ := h.join initial
    exact h.note rfl hcopies hmembers
  | clone i =>
    rw [Family.step]
    split
    · exact h
    · rename_i m hm
      obtain ⟨hcopies, hmembers⟩ := h.join m.cell.contents
      rw [CopyOnWrite.clone, (hthere hm).copier]
      exact h.note rfl hcopies hmembers
  | copyCurrent i =>
    rw [Family.step]
    split
    · exact h
    · rename_i m hm
      rw [(hthere hm).copyCurrent]
      exact h.note rfl rfl h.members
  | call i caller request =>
    rw [Family.step]
    split
    · exact h
    · rename_i m hm
      obtain ⟨hheeds, hcopies⟩ := (hthere hm).heed caller request f.supply
      refine h.note rfl ?_ fun m' hm' => ?_
      · rw [Event.purpose, hcopies]
        cases request.job? <;> rfl
      · rcases List.mem_or_eq_of_mem_set hm' with hm' | rfl
        · exact h.members m' hm'
        · exact hheeds

/-! ## Runs -/

variable {i : Nat} {m : Member C}

theorem getElem?_join (hm : f.members[i]? = some m) (source : C)
    (made : Except Panic (CopyOnWrite C) × Supply) : (f.join source made).members[i]? = some m := by
  rw [join]
  dsimp only
  split
  · exact hm
  · exact (List.getElem?_append_left (List.getElem?_eq_some_iff.1 hm).1).trans hm

/-- Cells stay in the family, and go on from what they were. -/
theorem step_continues (hm : f.members[i]? = some m) (e : Event C) :
    ∃ m', (f.step copy e).members[i]? = some m' ∧ m.Continues m' := by
  cases e with
  | construct initial => exact ⟨m, getElem?_join hm initial _, .refl m⟩
  | clone j =>
    rw [Family.step]
    split
    · exact ⟨m, hm, .refl m⟩
    · exact ⟨m, getElem?_join hm _ _, .refl m⟩
  | copyCurrent j =>
    rw [Family.step]
    split <;> exact ⟨m, hm, .refl m⟩
  | call j caller request =>
    rw [Family.step]
    split
    · exact ⟨m, hm, .refl m⟩
    · rename_i m' hm'
      by_cases hj : j = i
      · subst hj
        obtain rfl : m' = m := Option.some_inj.1 (hm'.symm.trans hm)
        exact ⟨_, List.getElem?_set_self (List.getElem?_eq_some_iff.1 hm).1,
          m'.continues_heed caller request f.supply⟩
      · exact ⟨m, (List.getElem?_set_ne hj).trans hm, .refl m⟩

theorem run_continues (hm : f.members[i]? = some m) (events : List (Event C)) :
    ∃ m', (f.run copy events).members[i]? = some m' ∧ m.Continues m' := by
  induction events generalizing f m with
  | nil => exact ⟨m, hm, .refl m⟩
  | cons e events ih =>
    obtain ⟨m', hm', hstep⟩ := step_continues hm e
    obtain ⟨m'', hm'', hrun⟩ := ih hm'
    exact ⟨m'', hm'', hstep.trans hrun⟩

/-- A family has one cell more, which begins as a copy of a value. -/
def Gains (f g : Family C) (source c : C) : Prop :=
  ∃ cell, cell.contents = c ∧
    g.members = f.members ++ [⟨cell, source, f.supply.copies + 1, []⟩]

theorem gains_join {source c : C} (hc : copy (f.supply.copies + 1) source = .ok c) (e : Event C) :
    f.Gains ((f.join source (withCopier source (.custom copy) f.supply)).note e) source c := by
  rw [withCopier, Copier.copy, hc]
  exact ⟨_, rfl, rfl⟩

theorem gains_clone (h : m.Accounted copy) (hm : f.members[i]? = some m) {c : C}
    (hc : copy (f.supply.copies + 1) m.cell.contents = .ok c) :
    f.Gains (f.step copy (.clone i)) m.cell.contents c := by
  rw [Family.step, hm]
  dsimp only
  rw [CopyOnWrite.clone, h.copier]
  exact gains_join hc (.clone i)

theorem Accounted.run (h : Accounted copy s f) (events : List (Event C)) :
    Accounted copy s (f.run copy events) := by
  induction events generalizing f with
  | nil => exact h
  | cons e events ih => exact ih (h.step e)

/-- Whatever the copy function does, at every moment of a run the copies that were asked for are one
for each construction, one for each call that makes a write, whether it succeeds or not, and one for
each clone and each copy of the contents. Each cell holds one copy of its source, copied once more
and mutated by each of its writes that succeeded, and its version counts these. The source of a
clone is what the cloned cell publishes when the clone is made, and stays what it is. -/
theorem run_accounted (copy : Nat → C → Except Panic C) (s : Supply) (events : List (Event C)) :
    let f := (start s).run copy events
    f.supply.copies = s.copies +
        (f.asked .construction + f.asked .write + f.asked .clone + f.asked .copyCurrent) ∧
      (∀ initial c, copy (f.supply.copies + 1) initial = .ok c →
        f.Gains (f.step copy (.construct initial)) initial c) ∧
      ∀ i m, f.members[i]? = some m →
        (∃ c, copy m.number m.source = .ok c ∧
          Replays (.custom copy) c m.landings m.cell.contents) ∧
        m.cell.version = m.landings.length ∧
        (∀ c, copy (f.supply.copies + 1) m.cell.contents = .ok c →
          f.Gains (f.step copy (.clone i)) m.cell.contents c) ∧
        ∀ later, ∃ m', (f.run copy later).members[i]? = some m' ∧ m.Continues m' := by
  intro f
  have hstart : Accounted copy s (start s) := ⟨rfl, fun m hm => absurd hm List.not_mem_nil⟩
  have h : Accounted copy s f := hstart.run events
  refine ⟨h.copies, fun initial c hc => gains_join hc (.construct initial), fun i m hm => ?_⟩
  have hm' : m.Accounted copy := h.members m (List.mem_of_getElem? hm)
  exact ⟨hm'.content, hm'.version, fun c hc => gains_clone hm' hm hc, run_continues hm⟩

/-- Every copy leaves its number in the contents, and the fourth panics; a rejected write and a look
leave nothing, but the rejected write asks for the fifth copy. -/
theorem run_accounted_marking :
    let copy : Nat → List Nat → Except Panic (List Nat) := fun n c =>
      if n = 4 then .error ⟨"copier"⟩ else .ok (n :: c)
    let push : Request (List Nat) := ⟨_, _, .write fun c => .ok ((), 0 :: c)⟩
    let reject : Request (List Nat) :=
      ⟨_, _, .tryWrite fun c => if c = [] then .ok ((), c) else .error (.rejected "taken")⟩
    let look : Request (List Nat) := ⟨_, _, .look (.contents fun c => .ok c.length)⟩
    let f := (start {}).run copy [.construct [], .call 0 0 push, .clone 0, .copyCurrent 0,
      .call 1 0 reject, .call 1 0 look, .call 1 0 push, .clone 7]
    f.supply.copies = 6 ∧ f.copied = 6 ∧ f.asked .write = 3 ∧
      ∃ m, f.members[1]? = some m ∧ m.source = [0, 2, 1] ∧ m.landings.length = 1 ∧
        copy m.number [0, 2, 1] = .ok [3, 0, 2, 1] ∧
        Replays (.custom copy) [3, 0, 2, 1] m.landings [0, 6, 3, 0, 2, 1] := by
  intro copy push reject look f
  have hcell : (f.members[1]?).map (fun m => (m.source, m.number, m.cell.contents, m.cell.version))
      = some ([0, 2, 1], 3, [0, 6, 3, 0, 2, 1], 1) := by decide +kernel
  obtain ⟨m, hm, hshown⟩ := Option.map_eq_some_iff.1 hcell
  obtain ⟨hsource, hnumber, hcontents, hone⟩ : m.source = [0, 2, 1] ∧ m.number = 3 ∧
      m.cell.contents = [0, 6, 3, 0, 2, 1] ∧ m.cell.version = 1 := by simpa using hshown
  have hrun := run_accounted copy {} [.construct [], .call 0 0 push, .clone 0, .copyCurrent 0,
    .call 1 0 reject, .call 1 0 look, .call 1 0 push, .clone 7]
  obtain ⟨⟨c, hc, hreplays⟩, hversion, -⟩ := hrun.2.2 1 m hm
  rw [hsource] at hc
  rw [hcontents] at hreplays
  have hmade : copy m.number [0, 2, 1] = .ok [3, 0, 2, 1] := by rw [hnumber]; rfl
  obtain rfl : c = [3, 0, 2, 1] := Except.ok.inj (hc.symm.trans hmade)
  exact ⟨by decide +kernel, by decide +kernel, by decide +kernel, m, hm, hsource,
    hversion.symm.trans hone, hmade, hreplays⟩

end Family

end SharedCells.CopyOnWrite
