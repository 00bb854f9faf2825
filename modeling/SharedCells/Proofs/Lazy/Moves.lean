import SharedCells.Proofs.Lazy.Outline

/-!
# Moves on a reference with one holder

A reference whose calls leave it its holder is resolved there or nowhere. `Stage.Fits` says where
a call on such a reference may stand, and what it may rely on there. `Moves` lists what one turn
may do to the outline of such a reference, and `step_moves` says that it does nothing else, if
every call stands where it may. Invariants are shown from this list.
-/

namespace SharedCells.Lazy

variable {T E : Type}

/-! ## Calls -/

/-- The calls that leave a reference its first holder. -/
def Call.Keeps : Call → Prop
  | reset | cancel | intoInner => False
  | resolve h _ | force h _ | retire h => h = 0
  | _ => True

/-- The calls that are to get an outcome. -/
def Call.Asks : Call → Prop
  | get _ | resolve _ _ | force _ _ => True
  | _ => False

/-- The value of an outcome, if it is one. -/
def valueOf : Option (Outcome T E) → Option (Shared T)
  | some (.ok v) => some v
  | _ => none

/-- Whether an outcome is a failure. -/
def failureIn : Option (Outcome T E) → Bool
  | some (.error _) => true
  | _ => false

/-- What a call may answer while a holder has published an outcome or none. -/
def Call.Tells (published : Option (Outcome T E)) : Call → Answer T E → Prop
  | tryGet, a => a = .value (valueOf published)
  | isInitialized, a => a = .flag (valueOf published).isSome
  | isFailed, a => a = .flag (failureIn published)
  | isCancelled, a => a = .flag false
  | inspect, a => ∃ n, a = .view ⟨n, valueOf published, failureIn published, false⟩
  | get _, a | force _ _, a =>
    a = .outcome (.error .interrupted) ∨ ∃ o, published = some o ∧ a = .outcome o
  | resolve _ _, a =>
    a = .outcome (.error .interrupted) ∨ (∃ o, published = some o ∧ a = .outcome o) ∨ a = .retired
  | _, a => ∀ o, a ≠ .outcome o

/-! ## Stages -/

/-- Whether a call holds the claim of a holder at a stage. -/
def Stage.claims : Stage T E → Bool
  | rechecking _ | handingBack _ | arming _ | running _ .publish _ _ | publishing _ _
  | completing _ _ => true
  | _ => false

/-- What may follow once waiters are woken. -/
def After.Fits (published : Option (Outcome T E)) (call : Call) : After T E → Prop
  | giveUp h => h = 0 ∧ call.Asks
  | resolve _ => False
  | answer (.outcome o) => call.Asks ∧ published = some o
  | answer .done => call = .retire 0
  | answer _ => False

/-- The outcomes that a reference may come to: that of the first run of its initializer, or the
value that it had from the start. -/
def Possible (initializer : Nat → Routine T E) (source : Option T) (o : Outcome T E) : Prop :=
  match source with
  | none => ∃ address, (initializer 1).ending.Leaves address o
  | some v => o = .ok ⟨0, v⟩

/-- Where a call may stand, while the holder has published an outcome or none and has its
initializer or not. -/
def Stage.Fits (initializer : Nat → Routine T E) (source : Option T)
    (published : Option (Outcome T E)) (armed : Bool) (call : Call) : Stage T E → Prop
  | start => True
  | peeking h => h = 0 ∧ call.Looks
  | entering h | checking h | choosing h | claiming h | registering h | watching h
  | watchingRetired h | watchingStatus h | parked h | leaving h _ => h = 0 ∧ call.Asks
  | rechecking h | handingBack h | arming h =>
    h = 0 ∧ call.Asks ∧ published = none ∧ armed = true
  | running h purpose run rest =>
    h = 0 ∧ call.Asks ∧ published = none ∧ armed = false ∧ purpose = .publish ∧ run = 1 ∧
      source = none ∧ ∀ c ∈ rest, c.Keeps
  | publishing h o =>
    h = 0 ∧ call.Asks ∧ published = none ∧ armed = false ∧ Possible initializer source o
  | completing h o => h = 0 ∧ call.Asks ∧ published = some o ∧ armed = false
  | draining h after => h = 0 ∧ after.Fits published call
  | waking _ after => after.Fits published call
  | retiring h => h = 0 ∧ call = .retire 0
  | unparking _ => ∀ (published : Option (Outcome T E)), call.Tells published .done
  | testing _ | swapping _ _ | swapped _ | counting _ | consuming _ => False

/-- A call that has begun stands where it may. -/
def Frame.Fits (initializer : Nat → Routine T E) (source : Option T) (o : Outline T E)
    (f : Frame T E) : Prop :=
  f.call.Keeps ∧ f.stage.Fits initializer source o.outcome o.armed f.call

/-! ## Moves -/

/-- What one turn of a thread may do to an outline. -/
inductive Moves (initializer : Nat → Routine T E) (source : Option T) (o : Outline T E) (t : Nat) :
    Outline T E → Prop
  /-- Nothing. -/
  | stays : Moves initializer source o t o
  /-- The thread begins its next call. -/
  | begins {call : Call} {calls : List Call} : o.frames t = [] → o.calls t = call :: calls →
    Moves initializer source o t
      { o.put t [⟨call, .start⟩] with calls := Function.update o.calls t calls }
  /-- The initializer makes a call. -/
  | nests {call c : Call} {h run : Nat} {purpose : Purpose} {cs : List Call}
    {rest : List (Frame T E)} :
    o.frames t = ⟨call, .running h purpose run (c :: cs)⟩ :: rest →
      Moves initializer source o t
        (o.put t (⟨c, .start⟩ :: ⟨call, .running h purpose run cs⟩ :: rest))
  /-- The call comes to a stage where it may stand; it neither takes nor gives the claim. -/
  | passes {call : Call} {stage stage' : Stage T E} {rest : List (Frame T E)} :
    o.frames t = ⟨call, stage⟩ :: rest → stage'.claims = stage.claims →
      stage'.Fits initializer source o.outcome o.armed call →
        Moves initializer source o t (o.put t (⟨call, stage'⟩ :: rest))
  /-- The call ends. -/
  | replies {call : Call} {stage : Stage T E} {a : Answer T E} {rest : List (Frame T E)} :
    o.frames t = ⟨call, stage⟩ :: rest → stage.claims = false → call.Tells o.outcome a →
      Moves initializer source o t (o.reply t rest call a)
  /-- The call claims the holder. -/
  | claims {call : Call} {stage stage' : Stage T E} {rest : List (Frame T E)} :
    o.frames t = ⟨call, stage⟩ :: rest → o.phase = .unresolved → stage.claims = false →
      stage'.claims = true → (o.outcome = none → o.armed = true →
        stage'.Fits initializer source o.outcome o.armed call) →
      Moves initializer source o t { o.put t (⟨call, stage'⟩ :: rest) with phase := .resolving }
  /-- The call gives the claim back. -/
  | handsBack {call : Call} {rest : List (Frame T E)} : call.Asks →
    o.frames t = ⟨call, .handingBack 0⟩ :: rest →
      Moves initializer source o t
        { o.put t (⟨call, .draining 0 (.giveUp 0)⟩ :: rest) with phase := .unresolved }
  /-- The call takes the initializer and runs it. -/
  | enters {call : Call} {rest : List (Frame T E)} : call.Asks →
    o.frames t = ⟨call, .arming 0⟩ :: rest → o.armed = true →
      Moves initializer source o t
        { o.put t (⟨call, .running 0 .publish (o.runs.length + 1)
            (initializer (o.runs.length + 1)).during⟩ :: rest) with
          armed := false
          runs := o.runs ++ [0] }
  /-- The call publishes the outcome. -/
  | publishes {call : Call} {out : Outcome T E} {rest : List (Frame T E)} : call.Asks →
    o.frames t = ⟨call, .publishing 0 out⟩ :: rest →
      Moves initializer source o t
        { o.put t (⟨call, .completing 0 out⟩ :: rest) with outcome := some out }
  /-- The call makes the holder complete and gives up the claim. -/
  | completes {call : Call} {out : Outcome T E} {rest : List (Frame T E)} : call.Asks →
    o.frames t = ⟨call, .completing 0 out⟩ :: rest →
      Moves initializer source o t
        { o.put t (⟨call, .draining 0 (.answer (.outcome out))⟩ :: rest) with phase := .complete }

/-! ## Steps are moves -/

theorem eq_of_valueOf {published : Option (Outcome T E)} {v : Shared T}
    (h : valueOf published = some v) : published = some (.ok v) := by
  rcases published with _ | _ | v'
  · cases h
  · cases h
  · cases h
    rfl

namespace Call

variable {call : Call} {published : Option (Outcome T E)}

theorem tells_outcome {o : Outcome T E} (hasks : call.Asks) (ho : published = some o) :
    call.Tells published (.outcome o) := by
  cases call with
  | get policy => exact Or.inr ⟨o, ho, rfl⟩
  | resolve h policy => exact Or.inr (Or.inl ⟨o, ho, rfl⟩)
  | force h interruptible => exact Or.inr ⟨o, ho, rfl⟩
  | _ => cases hasks

theorem tells_interrupted (hasks : call.Asks) :
    call.Tells published (.outcome (.error .interrupted)) := by
  cases call with
  | get policy => exact Or.inl rfl
  | resolve h policy => exact Or.inl rfl
  | force h interruptible => exact Or.inl rfl
  | _ => cases hasks

end Call

section Steps

variable {initializer : Nat → Routine T E} {source : Option T} {s s' : System T E} {t : Nat}
  {call : Call} {stage : Stage T E} {rest : List (Frame T E)}

/-- A call comes to another stage, perhaps after a change that the outline does not show. -/
theorem goTo_moves (hs : s'.outline = s.outline) (hf : s.outline.frames t = ⟨call, stage⟩ :: rest)
    {stage' : Stage T E} (hclaims : stage'.claims = stage.claims)
    (hfits : stage'.Fits initializer source s.outline.outcome s.outline.armed call) :
    Moves initializer source s.outline t (s'.goTo t stage').outline := by
  rw [s'.outline_goTo (hs ▸ hf), hs]
  exact .passes hf hclaims hfits

/-- A call ends, perhaps after a change that the outline does not show. -/
theorem answer_moves (hs : s'.outline = s.outline)
    (hf : s.outline.frames t = ⟨call, stage⟩ :: rest) (hclaims : stage.claims = false)
    {a : Answer T E} (htells : call.Tells s.outline.outcome a) :
    Moves initializer source s.outline t (s'.answer t a).outline := by
  rw [s'.outline_answer (hs ▸ hf), hs]
  exact .replies hf hclaims htells

theorem giveUp_moves (hs : s'.outline = s.outline)
    (hf : s.outline.frames t = ⟨call, stage⟩ :: rest) (hclaims : stage.claims = false)
    (hasks : call.Asks) :
    Moves initializer source s.outline t (s'.giveUp t call 0).outline := by
  cases call with
  | get policy => exact goTo_moves hs hf hclaims.symm trivial
  | resolve h policy => exact answer_moves hs hf hclaims (Or.inr (Or.inr rfl))
  | force h interruptible => exact goTo_moves hs hf hclaims.symm ⟨rfl, trivial⟩
  | _ => cases hasks

theorem launch_moves (hf : s.outline.frames t = ⟨call, .start⟩ :: rest) (hcurrent : s.current = 0)
    (hkeeps : call.Keeps) :
    Moves initializer source s.outline t (s.launch t call).outline := by
  cases call with
  | get policy => exact goTo_moves rfl hf rfl ⟨hcurrent, trivial⟩
  | tryGet => exact goTo_moves rfl hf rfl ⟨hcurrent, trivial⟩
  | isInitialized => exact goTo_moves rfl hf rfl ⟨hcurrent, trivial⟩
  | isFailed => exact goTo_moves rfl hf rfl ⟨hcurrent, trivial⟩
  | isCancelled => exact goTo_moves rfl hf rfl ⟨hcurrent, trivial⟩
  | inspect => exact goTo_moves rfl hf rfl ⟨hcurrent, trivial⟩
  | resolve h policy => exact goTo_moves rfl hf rfl ⟨hkeeps, trivial⟩
  | force h interruptible => exact goTo_moves rfl hf rfl ⟨hkeeps, trivial⟩
  | retire h =>
    have hzero : h = 0 := hkeeps
    exact goTo_moves rfl hf rfl ⟨hzero, congrArg Call.retire hzero⟩
  | generation => exact answer_moves rfl hf rfl fun o h => nomatch h
  | interrupt u =>
    exact goTo_moves (s.outline_updateStatus u _) hf rfl fun _ o h => nomatch h
  | interruptSelf =>
    exact goTo_moves (s.outline_updateStatus t _) hf rfl fun _ o h => nomatch h
  | isInterrupted => exact answer_moves rfl hf rfl fun o h => nomatch h
  | interrupted => exact answer_moves (s.outline_updateStatus t _) hf rfl fun o h => nomatch h
  | reset => exact hkeeps.elim
  | cancel => exact hkeeps.elim
  | intoInner => exact hkeeps.elim

/-- A look at the first holder tells what the outline shows of it. -/
theorem tells_of_observe (hphase : s.outline.phase ≠ .cancelled) {a : Answer T E}
    (h : (s.holder 0).observe s.generation call = some a) : call.Tells s.outline.outcome a := by
  have hcancelled : (s.holder 0).isCancelled = false := decide_eq_false hphase
  cases call with
  | get policy =>
    obtain ⟨v, hvalue, rfl⟩ := Option.map_eq_some_iff.1 h
    exact Call.tells_outcome trivial (eq_of_valueOf hvalue)
  | tryGet =>
    obtain rfl := Option.some.inj h
    rfl
  | isInitialized =>
    obtain rfl := Option.some.inj h
    rfl
  | isFailed =>
    obtain rfl := Option.some.inj h
    rfl
  | isCancelled =>
    obtain rfl := Option.some.inj h
    exact congrArg Answer.flag hcancelled
  | inspect =>
    obtain rfl := Option.some.inj h
    refine ⟨s.generation, ?_⟩
    rw [Holder.inspect, hcancelled]
    rfl
  | _ => cases h

/-- Only a call for the outcome goes on when there is none. -/
theorem asks_of_observe (hlooks : call.Looks)
    (h : (s.holder 0).observe s.generation call = none) : call.Asks := by
  cases call with
  | get policy => trivial
  | tryGet => cases h
  | isInitialized => cases h
  | isFailed => cases h
  | isCancelled => cases h
  | inspect => cases h
  | _ => cases hlooks

theorem peeking_moves (hf : s.outline.frames t = ⟨call, .peeking 0⟩ :: rest)
    (hphase : s.outline.phase ≠ .cancelled) (hlooks : call.Looks) :
    Moves initializer source s.outline t (s.advance initializer t call (.peeking 0)).outline := by
  simp only [System.advance]
  cases hobserve : (s.holder 0).observe s.generation call with
  | none => exact goTo_moves rfl hf rfl ⟨rfl, asks_of_observe hlooks hobserve⟩
  | some a => exact answer_moves rfl hf rfl (tells_of_observe hphase hobserve)

theorem claiming_moves (hf : s.outline.frames t = ⟨call, .claiming 0⟩ :: rest)
    (hasks : call.Asks) :
    Moves initializer source s.outline t (s.advance initializer t call (.claiming 0)).outline := by
  simp only [System.advance]
  split
  · rename_i hunresolved
    rw [s.outline_goTo_updateHolder hf]
    refine .claims hf hunresolved rfl ?_ fun hnone harmed => ?_
    · split <;> rfl
    · split <;> exact ⟨rfl, hasks, hnone, harmed⟩
  · exact goTo_moves rfl hf rfl ⟨rfl, hasks⟩

/-- A run makes its next call, waits for its gate or ends. -/
theorem running_moves {h run : Nat} {purpose : Purpose} {calls : List Call}
    (hf : s.outline.frames t = ⟨call, .running h purpose run calls⟩ :: rest)
    (hfits : Stage.Fits initializer source s.outline.outcome s.outline.armed call
      (.running h purpose run calls)) :
    Moves initializer source s.outline t
      (s.advance initializer t call (.running h purpose run calls)).outline := by
  obtain ⟨rfl, hasks, hnone, harmed, rfl, rfl, hsource, hcalls⟩ := hfits
  cases calls with
  | cons c cs =>
    simp only [System.advance]
    rw [s.outline_begin_goTo hf]
    exact .nests hf
  | nil =>
    simp only [System.advance]
    split
    · have hpossible : Possible initializer source
          ((initializer 1).ending.outcome s.allocate.1) := by
        subst hsource
        exact ⟨s.allocate.1, Ending.leaves_outcome ..⟩
      show Moves initializer source s.outline t (s.allocate.2.goTo t (.publishing 0 _)).outline
      exact goTo_moves rfl hf rfl ⟨rfl, hasks, hnone, harmed, hpossible⟩
    · exact .stays

/-- The next waiter is woken, or what follows is done. -/
theorem waking_moves {threads : List Nat} {after : After T E}
    (hf : s.outline.frames t = ⟨call, .waking threads after⟩ :: rest)
    (hfits : after.Fits s.outline.outcome call) :
    Moves initializer source s.outline t
      (s.advance initializer t call (.waking threads after)).outline := by
  cases threads with
  | cons u us => exact goTo_moves (s.outline_updateStatus u _) hf rfl hfits
  | nil =>
    cases after with
    | giveUp h =>
      obtain ⟨rfl, hasks⟩ := hfits
      exact giveUp_moves rfl hf rfl hasks
    | resolve h => exact hfits.elim
    | answer a =>
      cases a with
      | outcome o => exact answer_moves rfl hf rfl (Call.tells_outcome hfits.1 hfits.2)
      | done =>
        have hretire : call = .retire 0 := hfits
        rw [hretire] at hf
        exact answer_moves rfl hf rfl fun o h => nomatch h
      | _ => exact hfits.elim

theorem leaving_moves {wake : Wake} (hf : s.outline.frames t = ⟨call, .leaving 0 wake⟩ :: rest)
    (hasks : call.Asks) :
    Moves initializer source s.outline t
      (s.advance initializer t call (.leaving 0 wake)).outline := by
  cases wake with
  | ready => exact goTo_moves (s.outline_updateWaiters _) hf rfl ⟨rfl, hasks⟩
  | interrupted =>
    exact answer_moves (s.outline_updateWaiters _) hf rfl (Call.tells_interrupted hasks)
  | retired => exact giveUp_moves (s.outline_updateWaiters _) hf rfl hasks

theorem advance_moves (hf : s.outline.frames t = ⟨call, stage⟩ :: rest)
    (hcurrent : s.current = 0) (hphase : s.outline.phase ≠ .cancelled) (hkeeps : call.Keeps)
    (hfits : stage.Fits initializer source s.outline.outcome s.outline.armed call) :
    Moves initializer source s.outline t (s.advance initializer t call stage).outline := by
  cases stage with
  | start => exact launch_moves hf hcurrent hkeeps
  | peeking h =>
    obtain ⟨rfl, hlooks⟩ := hfits
    exact peeking_moves hf hphase hlooks
  | entering h =>
    obtain ⟨rfl, hasks⟩ := hfits
    simp only [System.advance]
    split
    · rename_i o ho
      exact answer_moves rfl hf rfl (Call.tells_outcome hasks ho)
    · split <;> exact goTo_moves rfl hf rfl ⟨rfl, hasks⟩
  | checking h =>
    obtain ⟨rfl, hasks⟩ := hfits
    simp only [System.advance]
    split
    · exact giveUp_moves rfl hf rfl hasks
    · exact goTo_moves rfl hf rfl ⟨rfl, hasks⟩
  | choosing h =>
    obtain ⟨rfl, hasks⟩ := hfits
    simp only [System.advance]
    split
    · exact goTo_moves rfl hf rfl ⟨rfl, hasks⟩
    · exact goTo_moves rfl hf rfl ⟨rfl, hasks⟩
    · exact goTo_moves rfl hf rfl ⟨rfl, hasks⟩
    · exact absurd ‹_› hphase
  | claiming h =>
    obtain ⟨rfl, hasks⟩ := hfits
    exact claiming_moves hf hasks
  | rechecking h =>
    obtain ⟨rfl, hfits⟩ := hfits
    simp only [System.advance]
    split <;> exact goTo_moves rfl hf rfl ⟨rfl, hfits⟩
  | handingBack h =>
    obtain ⟨rfl, hasks, -, -⟩ := hfits
    simp only [System.advance]
    rw [s.outline_goTo_updateHolder hf]
    exact .handsBack hasks hf
  | arming h =>
    obtain ⟨rfl, hasks, hnone, harmed⟩ := hfits
    have hnone' : (s.holder 0).outcome = none := hnone
    have harmed' : (s.holder 0).armed = true := harmed
    simp only [System.advance, hnone', harmed', if_true]
    rw [(s.enter 0).2.outline_goTo hf, s.outline_enter]
    exact .enters hasks hf harmed
  | running h purpose run calls => exact running_moves hf hfits
  | publishing h o =>
    obtain ⟨rfl, hasks, -, -, -⟩ := hfits
    simp only [System.advance]
    rw [s.outline_goTo_updateHolder hf]
    exact .publishes hasks hf
  | completing h o =>
    obtain ⟨rfl, hasks, -, -⟩ := hfits
    simp only [System.advance]
    rw [s.outline_goTo_updateHolder hf]
    exact .completes hasks hf
  | draining h after =>
    obtain ⟨rfl, hafter⟩ := hfits
    exact goTo_moves (s.outline_updateWaiters _) hf rfl hafter
  | waking threads after => exact waking_moves hf hfits
  | registering h =>
    obtain ⟨rfl, hasks⟩ := hfits
    exact goTo_moves (s.outline_updateWaiters _) hf rfl ⟨rfl, hasks⟩
  | watching h =>
    obtain ⟨rfl, hasks⟩ := hfits
    simp only [System.advance]
    split <;> exact goTo_moves rfl hf rfl ⟨rfl, hasks⟩
  | watchingRetired h =>
    obtain ⟨rfl, hasks⟩ := hfits
    simp only [System.advance]
    split <;> exact goTo_moves rfl hf rfl ⟨rfl, hasks⟩
  | watchingStatus h =>
    obtain ⟨rfl, hasks⟩ := hfits
    simp only [System.advance]
    split <;> exact goTo_moves rfl hf rfl ⟨rfl, hasks⟩
  | parked h =>
    obtain ⟨rfl, hasks⟩ := hfits
    simp only [System.advance]
    split
    · exact goTo_moves (s.outline_updateStatus t _) hf rfl ⟨rfl, hasks⟩
    · exact .stays
  | leaving h wake =>
    obtain ⟨rfl, hasks⟩ := hfits
    exact leaving_moves hf hasks
  | retiring h =>
    obtain ⟨rfl, rfl⟩ := hfits
    exact goTo_moves (s.outline_updateHolder _) hf rfl ⟨rfl, rfl⟩
  | unparking u => exact answer_moves (s.outline_updateStatus u _) hf rfl (hfits _)
  | testing h => exact hfits.elim
  | swapping h keeps => exact hfits.elim
  | swapped h => exact hfits.elim
  | counting h => exact hfits.elim
  | consuming h => exact hfits.elim

theorem head_fits (hfits : ∀ f ∈ s.outline.frames t, f.Fits initializer source s.outline)
    {f : Frame T E} (hf : s.outline.frames t = f :: rest) : f.Fits initializer source s.outline :=
  hfits f (hf ▸ List.mem_cons_self)

theorem stepThread_moves (hcurrent : s.current = 0) (hphase : s.outline.phase ≠ .cancelled)
    (hfits : ∀ f ∈ s.outline.frames t, f.Fits initializer source s.outline) :
    Moves initializer source s.outline t (s.stepThread initializer t).outline := by
  rw [System.stepThread]
  split
  · rename_i call stage rest hf
    obtain ⟨hkeeps, hstage⟩ := head_fits hfits hf
    exact advance_moves hf hcurrent hphase hkeeps hstage
  · rename_i call calls hf hcalls
    rw [s.outline_begin_next t call calls hf]
    exact .begins hf hcalls
  · exact .stays

/-- Every turn is a move of some thread. -/
theorem step_moves (hcurrent : s.current = 0) (hphase : s.outline.phase ≠ .cancelled)
    (hfits : ∀ t, ∀ f ∈ s.outline.frames t, f.Fits initializer source s.outline) (turn : Turn) :
    ∃ t, Moves initializer source s.outline t (s.step initializer turn).outline := by
  cases turn with
  | thread t => exact ⟨t, stepThread_moves hcurrent hphase (hfits t)⟩
  | claimFails t =>
    refine ⟨t, ?_⟩
    rw [System.step]
    split
    · rename_i call h rest hf
      obtain ⟨-, rfl, hasks⟩ := head_fits (hfits t) hf
      exact goTo_moves rfl hf rfl ⟨rfl, hasks⟩
    · exact .stays
  | wakes t =>
    refine ⟨t, ?_⟩
    rw [System.step]
    split
    · rename_i call h rest hf
      obtain ⟨-, rfl, hasks⟩ := head_fits (hfits t) hf
      exact goTo_moves rfl hf rfl ⟨rfl, hasks⟩
    · exact .stays
  | opens gate => exact ⟨0, .stays⟩

end Steps

end SharedCells.Lazy
