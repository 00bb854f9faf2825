import SharedCells.Lazy.System

/-!
# Steps of the threads of a reference

A step of a thread makes at most one access to what the threads share. To get the outcome of a
holder a caller looks for it, looks whether the holder is retired, and reads the phase. An
unresolved holder it claims; having looked once more whether the holder is retired it hands the
claim back, or it runs the initializer, publishes the outcome, makes the holder complete and
wakes the waiters. At a holder that another caller resolves it registers as a waiter first, then
looks for a reason to leave, and parks as long as there is none.

* `System.step` is one turn. A thread that is parked without a permit, or that waits for a gate,
  stays where it is.
* `System.run` follows a schedule.
-/

namespace SharedCells.Lazy

inductive Turn where
  | thread (t : Nat)
  /-- A thread that is about to claim a holder fails to, though nobody else has claimed it. -/
  | claimFails (t : Nat)
  /-- A parked thread wakes up without a reason. -/
  | wakes (t : Nat)
  | opens (gate : String)

/-- The message for a caller that finds no initializer. -/
def consumedMessage : String := "initializer already consumed"

/-- The outcome for a caller that finds no initializer. -/
def exhausted {T E : Type} (address : Nat) : Outcome T E :=
  .error (.panicked ⟨address, consumedMessage⟩)

namespace System

variable {T E : Type}

/-- What follows for a call whose attempt at a holder ended because that was retired. -/
def giveUp (s : System T E) (t : Nat) (call : Call) (h : Nat) : System T E :=
  match call with
  | .get _ => s.goTo t .start
  | .resolve _ _ => s.answer t .retired
  | _ => s.goTo t (.entering h)

/-- What follows once all waiters are woken. -/
def follow (s : System T E) (t : Nat) (call : Call) : After T E → System T E
  | .giveUp h => s.giveUp t call h
  | .resolve h => s.goTo t (.entering h)
  | .answer a => s.answer t a

/-- What a call does with a holder that it has retired. -/
def afterRetiring (call : Call) (h : Nat) : After T E :=
  match call with
  | .reset => .resolve h
  | .cancel => .answer (.flag true)
  | _ => .answer .done

/-- The answer of a call that found the reference cancelled. -/
def tooLate : Call → Answer T E
  | .cancel => .flag false
  | _ => .outcome (.error .cancelled)

/-- The holder that a call installs. -/
def replacement : Call → Holder T E
  | .cancel => .cancelled
  | _ => .fresh

/-- The first step of a call. -/
def launch (s : System T E) (t : Nat) : Call → System T E
  | .get _ | .tryGet | .isInitialized | .isFailed | .isCancelled | .inspect =>
    s.goTo t (.peeking s.current)
  | .resolve h _ | .force h _ => s.goTo t (.entering h)
  | .retire h => s.goTo t (.retiring h)
  | .reset | .cancel => s.goTo t (.testing s.current)
  | .generation => s.answer t (.count s.generation)
  | .intoInner => s.goTo t (.consuming s.current)
  | .interrupt u => (s.updateStatus u Status.raise).goTo t (.unparking u)
  | .interruptSelf => (s.updateStatus t Status.raise).goTo t (.unparking t)
  | .isInterrupted => s.answer t (.flag (s.thread t).status.interrupted)
  | .interrupted =>
    let (flag, _) := (s.thread t).status.clear
    (s.updateStatus t fun status => status.clear.2).answer t (.flag flag)

/-- The end of a run of the initializer. -/
def conclude (s : System T E) (t h : Nat) (ending : Ending T E) : Purpose → System T E
  | .publish =>
    let (address, s) := s.allocate
    s.goTo t (.publishing h (ending.outcome address))
  | .consume =>
    let (address, s) := s.allocate
    s.answer t (.outcome (ending.given address))

/-- One step of a thread whose innermost call is given. -/
def advance (initializer : Nat → Routine T E) (s : System T E) (t : Nat) (call : Call) :
    Stage T E → System T E
  | .start => s.launch t call
  | .peeking h =>
    match (s.holder h).observe s.generation call with
    | some a => s.answer t a
    | none => s.goTo t (.entering h)
  | .entering h =>
    match (s.holder h).outcome with
    | some o => s.answer t (.outcome o)
    | none => s.goTo t (if call.policy.leaveOnRetire then .checking h else .choosing h)
  | .checking h =>
    if (s.holder h).retired then s.giveUp t call h else s.goTo t (.choosing h)
  | .choosing h =>
    match (s.holder h).phase with
    | .unresolved => s.goTo t (.claiming h)
    | .resolving => s.goTo t (.registering h)
    | .complete => s.goTo t (.entering h)
    | .cancelled => s.answer t (.outcome (.error .cancelled))
  | .claiming h =>
    if (s.holder h).phase = .unresolved then
      (s.updateHolder h fun holder => { holder with phase := .resolving }).goTo t
        (if call.policy.leaveOnRetire then .rechecking h else .arming h)
    else s.goTo t (.entering h)
  | .rechecking h => s.goTo t (if (s.holder h).retired then .handingBack h else .arming h)
  | .handingBack h =>
    (s.updateHolder h fun holder => { holder with phase := .unresolved }).goTo t
      (.draining h (.giveUp h))
  | .arming h =>
    match (s.holder h).outcome with
    | some o => s.goTo t (.completing h o)
    | none =>
      if (s.holder h).armed then
        let (run, s) := s.enter h
        s.goTo t (.running h .publish run (initializer run).during)
      else
        let (address, s) := s.allocate
        s.goTo t (.publishing h (exhausted address))
  | .running h purpose run (c :: cs) => (s.goTo t (.running h purpose run cs)).begin t c
  | .running h purpose run [] =>
    if ∀ gate ∈ (initializer run).gate, gate ∈ s.opened then
      s.conclude t h (initializer run).ending purpose
    else s
  | .publishing h o =>
    (s.updateHolder h fun holder => { holder with outcome := some o }).goTo t (.completing h o)
  | .completing h o =>
    (s.updateHolder h fun holder => { holder with phase := .complete }).goTo t
      (.draining h (.answer (.outcome o)))
  | .draining h after =>
    (s.updateHolder h fun holder => { holder with waiters := [] }).goTo t
      (.waking (s.holder h).waiters after)
  | .waking (u :: us) after => (s.updateStatus u Status.unpark).goTo t (.waking us after)
  | .waking [] after => s.follow t call after
  | .registering h =>
    (s.updateHolder h fun holder => { holder with waiters := holder.waiters ++ [t] }).goTo t
      (.watching h)
  | .watching h =>
    s.goTo t (if (s.holder h).phase = .resolving then .watchingRetired h else .leaving h .ready)
  | .watchingRetired h =>
    s.goTo t
      (if call.policy.leaveOnRetire && (s.holder h).retired then .leaving h .retired
      else .watchingStatus h)
  | .watchingStatus h =>
    s.goTo t
      (if call.policy.interruptible && (s.thread t).status.interrupted then .leaving h .interrupted
      else .parked h)
  | .parked h =>
    match (s.thread t).status.park? with
    | some status => (s.updateStatus t fun _ => status).goTo t (.watching h)
    | none => s
  | .leaving h wake =>
    let s := s.updateHolder h fun holder => { holder with waiters := holder.waiters.erase t }
    match wake with
    | .ready => s.goTo t (.entering h)
    | .interrupted => s.answer t (.outcome (.error .interrupted))
    | .retired => s.giveUp t call h
  | .testing h => s.goTo t (.swapping h (s.holder h).isCancelled)
  | .swapping h keeps =>
    if s.current = h then (if keeps then s else s.install (replacement call)).goTo t (.swapped h)
    else s.goTo t .start
  | .swapped h =>
    if (s.holder h).isCancelled then s.answer t (tooLate call)
    else s.goTo t (if call = .reset then .counting h else .retiring h)
  | .counting h => goTo { s with generation := s.generation + 1 } t (.retiring h)
  | .retiring h =>
    (s.updateHolder h fun holder => { holder with retired := true }).goTo t
      (.draining h (afterRetiring call h))
  | .unparking u => (s.updateStatus u Status.unpark).answer t .done
  | .consuming h =>
    match (s.holder h).outcome with
    | some o => s.answer t (.outcome o)
    | none =>
      if (s.holder h).isCancelled then s.answer t (.outcome (.error .cancelled))
      else if (s.holder h).armed then
        let (run, s) := s.enter h
        s.goTo t (.running h .consume run (initializer run).during)
      else
        let (address, s) := s.allocate
        s.answer t (.outcome (exhausted address))

def stepThread (initializer : Nat → Routine T E) (s : System T E) (t : Nat) : System T E :=
  match (s.thread t).frames, (s.thread t).calls with
  | ⟨call, stage⟩ :: _, _ => s.advance initializer t call stage
  | [], call :: calls => (s.updateThread t fun thread => { thread with calls }).begin t call
  | [], [] => s

def step (initializer : Nat → Routine T E) (s : System T E) : Turn → System T E
  | .thread t => s.stepThread initializer t
  | .claimFails t =>
    match (s.thread t).frames with
    | ⟨_, .claiming h⟩ :: _ => s.goTo t (.entering h)
    | _ => s
  | .wakes t =>
    match (s.thread t).frames with
    | ⟨_, .parked h⟩ :: _ => s.goTo t (.watching h)
    | _ => s
  | .opens gate => { s with opened := s.opened ++ [gate] }

def run (initializer : Nat → Routine T E) (s : System T E) (schedule : List Turn) : System T E :=
  schedule.foldl (step initializer) s

end System

end SharedCells.Lazy
