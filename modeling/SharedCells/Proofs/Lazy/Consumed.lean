import SharedCells.Proofs.Lazy.Once
import SharedCells.Proofs.Lazy.Sequential.Alone

/-!
# References that are used up

A caller that uses a reference up runs the initializer by itself if nobody did before, and keeps
what comes of it. It gets what a call of `get` would have given it instead: of an ending it is given
what would have been published (`Ending.given_eq_outcome`).

* `Call.Prompt` are the calls that wait for nothing. `prompt_replies` says that they are answered,
  and `during_ends` that an initializer ends which makes no others.
* `System.Delivers` says that a call, if it is begun now, ends with an outcome.
* `run_consumed` is the result, after every schedule of other calls.
-/

namespace SharedCells.Lazy

variable {T E : Type}

/-- The calls that wait for nothing and leave a reference as it is. -/
def Call.Prompt : Call → Prop
  | tryGet | isInitialized | isFailed | isCancelled | inspect | generation | interrupt _
  | interruptSelf | isInterrupted | interrupted => True
  | _ => False

/-- Turns of one thread, before and after the gate opens that the initializer waits for. -/
def turnsThrough (initializer : Nat → Routine T E) (t before after : Nat) : List Turn :=
  List.replicate before (.thread t) ++ (initializer 1).gate.toList.map .opens ++
    List.replicate after (.thread t)

/-- A call that a thread has begun above some frames is answered after some turns of the thread, and
nothing else is done. -/
def System.Replies (initializer : Nat → Routine T E) (s : System T E) (t : Nat) (c : Call)
    (rest : List (Frame T E)) : Prop :=
  ∃ n a, (s.run initializer (List.replicate n (.thread t))).lineage = s.lineage.reply t rest c a

/-- A call that a thread begins now ends with an outcome. Meanwhile only the initializer is
answered, in the first run. -/
def System.Delivers (initializer : Nat → Routine T E) (s : System T E) (t : Nat) (call : Call)
    (runs : List Nat) (o : Outcome T E) : Prop :=
  ∃ before after,
    let s' := (s.begin t call).run initializer (turnsThrough initializer t before after)
    (s'.thread t).frames = [] ∧ s'.runs = runs ∧ ∃ inner, (∀ r ∈ inner, r.caller = .run 1) ∧
      s'.log = s.log ++ inner ++ [⟨.thread t, call, .outcome o⟩]

section Turns

variable {initializer : Nat → Routine T E} {s s' : System T E} {t h run : Nat} {call c : Call}
  {stage : Stage T E} {rest : List (Frame T E)} {purpose : Purpose} {l : Lineage T E}

theorem run_turns_add (s : System T E) (m n : Nat) :
    s.run initializer (List.replicate (m + n) (.thread t)) =
      (s.run initializer (List.replicate m (.thread t))).run initializer
        (List.replicate n (.thread t)) := by
  rw [← List.replicate_append_replicate, System.run_append]

theorem run_opens (s : System T E) (gates : List String) :
    s.run initializer (gates.map .opens) = { s with opened := s.opened ++ gates } := by
  induction gates generalizing s with
  | nil => rw [List.append_nil]; rfl
  | cons gate gates ih =>
    rw [List.append_cons]
    exact ih { s with opened := s.opened ++ [gate] }

theorem run_turnsThrough (s : System T E) (before after : Nat) :
    s.run initializer (turnsThrough initializer t before after) =
      System.run initializer { s.run initializer (List.replicate before (.thread t)) with
        opened := (s.run initializer (List.replicate before (.thread t))).opened ++
          (initializer 1).gate.toList } (List.replicate after (.thread t)) := by
  rw [turnsThrough, System.run_append, System.run_append, run_opens]

/-! ## Calls that wait for nothing -/

/-- The end of a call above some frames, whatever stage it has come to. -/
theorem answer_ends (hs : s'.lineage = s.lineage.put t (⟨c, stage⟩ :: rest)) (a : Answer T E) :
    (s'.answer t a).lineage = s.lineage.reply t rest c a := by
  have hf : (s'.thread t).frames = ⟨c, stage⟩ :: rest := Lineage.frames_of_put hs
  rw [s'.lineage_answer hf, hs, Lineage.reply, Lineage.reply, Lineage.put_put]

theorem lineage_of_frames (hf : (s.thread t).frames = ⟨c, .start⟩ :: rest) :
    s.lineage = s.lineage.put t (⟨c, .start⟩ :: rest) := by
  rw [← hf]
  exact congrArg (fun frames => { s.lineage with frames }) (Function.update_eq_self t _).symm

/-- A call that is answered in its first turn. -/
theorem replies_of_launch (hf : (s.thread t).frames = ⟨c, .start⟩ :: rest) {a : Answer T E}
    (hlaunch : s.launch t c = s'.answer t a) (hs' : s'.lineage = s.lineage) :
    s.Replies initializer t c rest := by
  refine ⟨1, a, ?_⟩
  show (s.stepThread initializer t).lineage = _
  rw [System.stepThread, hf]
  show (s.launch t c).lineage = _
  rw [hlaunch]
  exact answer_ends (hs'.trans (lineage_of_frames hf)) a

/-- A call that is answered in its second turn. -/
theorem replies_of_stage (hf : (s.thread t).frames = ⟨c, .start⟩ :: rest)
    (hlaunch : (s.launch t c).lineage = s.lineage.put t (⟨c, stage⟩ :: rest)) {a : Answer T E}
    (hadvance : (s.launch t c).advance initializer t c stage = s'.answer t a)
    (hs' : s'.lineage = (s.launch t c).lineage) :
    s.Replies initializer t c rest := by
  have hstarted : s.stepThread initializer t = s.launch t c := by
    rw [System.stepThread, hf]
    rfl
  have hf' : ((s.launch t c).thread t).frames = ⟨c, stage⟩ :: rest := Lineage.frames_of_put hlaunch
  refine ⟨2, a, ?_⟩
  show ((s.stepThread initializer t).stepThread initializer t).lineage = _
  rw [hstarted, System.stepThread, hf']
  show ((s.launch t c).advance initializer t c stage).lineage = _
  rw [hadvance]
  exact answer_ends (hs'.trans hlaunch) a

theorem looks_replies (hf : (s.thread t).frames = ⟨c, .start⟩ :: rest)
    (hlaunch : s.launch t c = s.goTo t (.peeking s.current))
    (hobserve : ∀ (holder : Holder T E) generation, ∃ a, holder.observe generation c = some a) :
    s.Replies initializer t c rest := by
  obtain ⟨a, ha⟩ := hobserve ((s.launch t c).holder s.current) (s.launch t c).generation
  have hstarted : (s.launch t c).lineage = s.lineage.put t (⟨c, .peeking s.current⟩ :: rest) := by
    rw [hlaunch]
    exact s.lineage_goTo hf _
  refine replies_of_stage hf hstarted (a := a) ?_ rfl
  rw [System.advance, ha]

theorem wakes_replies (hf : (s.thread t).frames = ⟨c, .start⟩ :: rest) {u : Nat}
    (hlaunch : s.launch t c = (s.updateStatus u Status.raise).goTo t (.unparking u)) :
    s.Replies initializer t c rest := by
  have hraised := s.lineage_updateStatus u Status.raise
  have hf' : ((s.updateStatus u Status.raise).thread t).frames = ⟨c, .start⟩ :: rest :=
    (congrFun (congrArg Lineage.frames hraised) t).trans hf
  have hstarted : (s.launch t c).lineage = s.lineage.put t (⟨c, .unparking u⟩ :: rest) := by
    rw [hlaunch, System.lineage_goTo _ hf', hraised]
  exact replies_of_stage hf hstarted rfl (System.lineage_updateStatus ..)

theorem prompt_replies (hc : c.Prompt) (hf : (s.thread t).frames = ⟨c, .start⟩ :: rest) :
    s.Replies initializer t c rest := by
  cases c with
  | tryGet | isInitialized | isFailed | isCancelled | inspect =>
    exact looks_replies hf rfl fun _ _ => ⟨_, rfl⟩
  | interrupt u => exact wakes_replies hf rfl
  | interruptSelf => exact wakes_replies hf rfl
  | generation | isInterrupted => exact replies_of_launch hf rfl rfl
  | interrupted => exact replies_of_launch hf rfl (s.lineage_updateStatus ..)
  | _ => exact hc.elim

/-- An initializer that makes such calls only comes to their end. -/
theorem during_ends {cs : List Call} (hcs : ∀ c ∈ cs, c.Prompt)
    (hs : s.lineage = l.doing t call (.running h purpose run cs)) :
    ∃ n inner, (∀ r ∈ inner, r.caller = .run run) ∧
      (s.run initializer (List.replicate n (.thread t))).lineage =
        Lineage.doing { l with log := l.log ++ inner } t call (.running h purpose run []) := by
  induction cs generalizing s l with
  | nil =>
    refine ⟨0, [], by simp, ?_⟩
    rw [List.append_nil]
    exact hs
  | cons c cs ih =>
    have hf := frames_of_doing hs
    have hnested : (s.stepThread initializer t).lineage =
        l.put t [⟨c, .start⟩, ⟨call, .running h purpose run cs⟩] := by
      rw [System.stepThread, hf]
      refine (s.lineage_begin_goTo hf _ c).trans ?_
      rw [hs, Lineage.doing, Lineage.put_put]
    have hreplies : (s.stepThread initializer t).Replies initializer t c
        [⟨call, .running h purpose run cs⟩] :=
      prompt_replies (hcs c List.mem_cons_self) (Lineage.frames_of_put hnested)
    obtain ⟨n, a, hended⟩ := hreplies
    have hdone : ((s.stepThread initializer t).run initializer
        (List.replicate n (.thread t))).lineage =
          Lineage.doing { l with log := l.log ++ [⟨.run run, c, a⟩] } t call
            (.running h purpose run cs) := by
      rw [hended, hnested, Lineage.reply]
      show ((l.put t _).put t _).append _ = _
      rw [Lineage.put_put]
      rfl
    obtain ⟨m, inner, hinner, hrest⟩ := ih (fun c' hc' => hcs c' (List.mem_cons_of_mem c hc')) hdone
    refine ⟨1 + n + m, ⟨.run run, c, a⟩ :: inner, List.forall_mem_cons.2 ⟨rfl, hinner⟩, ?_⟩
    rw [run_turns_add, run_turns_add, List.append_cons]
    exact hrest

/-! ## Calls that get an outcome -/

theorem lineage_begin_idle (hidle : (s.thread t).frames = []) :
    (s.begin t call).lineage = s.lineage.doing t call .start := by
  rw [s.lineage_begin, hidle]
  rfl

variable {o : Outcome T E}

/-- A call that finds an outcome. -/
theorem delivers_of_leads (hidle : (s.thread t).frames = [])
    (hleads : Leads initializer t (s.lineage.doing t call .start)
      (s.lineage.done t call (.outcome o))) : s.Delivers initializer t call s.runs o := by
  obtain ⟨n, hn⟩ := hleads _ (lineage_begin_idle hidle)
  refine ⟨n, 0, ?_⟩
  rw [run_turnsThrough]
  refine ⟨(congrFun (congrArg Lineage.frames hn) t).trans (Function.update_self ..),
    congrArg Lineage.runs hn, [], by simp, ?_⟩
  rw [List.append_nil]
  exact congrArg Lineage.log hn

/-- A call that runs the initializer. -/
theorem delivers_of_running (hidle : (s.thread t).frames = [])
    (hduring : ∀ c ∈ (initializer 1).during, c.Prompt) (hlog : l.log = s.log)
    (hstart : Leads initializer t (s.lineage.doing t call .start)
      (l.doing t call (.running h purpose 1 (initializer 1).during)))
    (hends : ∀ (inner : List (Reply T E)) (s' : System T E),
      s'.lineage =
        Lineage.doing { l with log := l.log ++ inner } t call (.running h purpose 1 []) →
      ∃ n l', ((s'.conclude t h (initializer 1).ending purpose).run initializer
          (List.replicate n (.thread t))).lineage = Lineage.done l' t call (.outcome o) ∧
        l'.runs = l.runs ∧ l'.log = l.log ++ inner) :
    s.Delivers initializer t call l.runs o := by
  obtain ⟨m, hm⟩ := hstart _ (lineage_begin_idle hidle)
  obtain ⟨n, inner, hinner, hn⟩ := during_ends hduring hm
  rw [← run_turns_add] at hn
  -- The thread waits for the gate, which is opened, and then the run ends.
  let waiting := (s.begin t call).run initializer (List.replicate (m + n) (.thread t))
  let free : System T E :=
    { waiting with opened := waiting.opened ++ (initializer 1).gate.toList }
  have hfree : free.lineage =
      Lineage.doing { l with log := l.log ++ inner } t call (.running h purpose 1 []) := hn
  have hgate : ∀ gate ∈ (initializer 1).gate, gate ∈ free.opened := fun gate hgate =>
    List.mem_append_right _ (Option.mem_toList.2 hgate)
  have hconcludes : free.stepThread initializer t =
      free.conclude t h (initializer 1).ending purpose := by
    rw [System.stepThread, frames_of_doing hfree]
    exact if_pos hgate
  obtain ⟨k, l', hk, hruns, hlog'⟩ := hends inner free hfree
  refine ⟨m + n, 1 + k, ?_⟩
  have hrun : (s.begin t call).run initializer (turnsThrough initializer t (m + n) (1 + k)) =
      (free.conclude t h (initializer 1).ending purpose).run initializer
        (List.replicate k (.thread t)) := by
    rw [run_turnsThrough, run_turns_add, ← hconcludes]
    rfl
  rw [hrun]
  refine ⟨(congrFun (congrArg Lineage.frames hk) t).trans (Function.update_self ..),
    (congrArg Lineage.runs hk).trans hruns, inner, hinner, (congrArg Lineage.log hk).trans ?_⟩
  show l'.log ++ _ = _
  rw [hlog', hlog]

/-- A reference whose initializer nobody has called. -/
structure System.Unasked (s : System T E) : Prop where
  current : s.current = 0
  phase : (s.holder 0).phase = .unresolved
  outcome : (s.holder 0).outcome = none
  armed : (s.holder 0).armed = true
  runs : s.runs = []

/-- A reference that nobody has asked yet is asked by `get`. -/
theorem delivers_get_unasked (hs : s.Unasked) {policy : Policy}
    (hpolicy : policy.leaveOnRetire = false) (hidle : (s.thread t).frames = [])
    (hduring : ∀ c ∈ (initializer 1).during, c.Prompt) :
    s.Delivers initializer t (.get policy) [0] ((initializer 1).ending.outcome s.allocations) := by
  have hcurrent : s.lineage.current = 0 := hs.current
  have hruns : s.lineage.runs = [] := hs.runs
  have hpeek : (s.lineage.holders s.lineage.current).peek = none := by
    rw [hcurrent]
    show (s.holder 0).peek = none
    rw [Holder.peek, hs.outcome]
  let claimed := s.lineage.set 0 { s.lineage.holders 0 with phase := .resolving }
  have hunseen : Leads initializer t (s.lineage.doing t (.get policy) .start)
      (s.lineage.doing t (.get policy) (.entering s.lineage.current)) := leads_unseen hpeek
  rw [hcurrent] at hunseen
  have hclaims : Leads initializer t (s.lineage.doing t (.get policy) (.entering 0))
      (claimed.doing t (.get policy) (.arming 0)) :=
    leads_entering_fresh hs.outcome hs.phase fun hleave => by simp [Call.policy, hpolicy] at hleave
  have henters : Leads initializer t (claimed.doing t (.get policy) (.arming 0))
      ((claimed.enter 0).doing t (.get policy)
        (.running 0 .publish (s.lineage.runs.length + 1)
          (initializer (s.lineage.runs.length + 1)).during)) :=
    leads_entered (by simp only [claimed, Lineage.holders_set_self]; exact hs.outcome)
      (by simp only [claimed, Lineage.holders_set_self]; exact hs.armed)
  rw [hruns] at henters
  have hentered : (claimed.enter 0).runs = [0] := congrArg (· ++ [0]) hruns
  rw [← hentered]
  refine delivers_of_running hidle hduring rfl (hunseen.trans (hclaims.trans henters))
    fun inner s' hs' => ?_
  obtain ⟨n, hn⟩ := leads_publishing _ (conclude_publish (h := 0) hs' (initializer 1).ending)
  exact ⟨n, _, hn, rfl, rfl⟩

theorem leads_consuming : Leads initializer t (l.doing t .intoInner .start)
    (l.doing t .intoInner (.consuming l.current)) := by
  refine Leads.advance fun s hs => ?_
  have hcurrent : s.current = l.current := congrArg Lineage.current hs
  rw [System.advance, System.launch, hcurrent]
  exact goTo_doing hs _

/-- A reference that nobody has asked yet is used up. -/
theorem delivers_intoInner_unasked (hs : s.Unasked) (hidle : (s.thread t).frames = [])
    (hduring : ∀ c ∈ (initializer 1).during, c.Prompt) :
    s.Delivers initializer t .intoInner [0] ((initializer 1).ending.outcome s.allocations) := by
  have hcurrent : s.lineage.current = 0 := hs.current
  have hruns : s.lineage.runs = [] := hs.runs
  have hconsumes : Leads initializer t (s.lineage.doing t .intoInner .start)
      (s.lineage.doing t .intoInner (.consuming s.lineage.current)) := leads_consuming
  rw [hcurrent] at hconsumes
  have henters : Leads initializer t (s.lineage.doing t .intoInner (.consuming 0))
      ((s.lineage.enter 0).doing t .intoInner
        (.running 0 .consume (s.lineage.runs.length + 1)
          (initializer (s.lineage.runs.length + 1)).during)) := by
    refine Leads.advance fun s' hs' => ?_
    have hbare : (s'.holder 0).bare = (s.holder 0).bare := holder_of_doing hs' 0
    have hnone : (s'.holder 0).outcome = none := (congrArg Holder.outcome hbare).trans hs.outcome
    have harmed : (s'.holder 0).armed = true := (congrArg Holder.armed hbare).trans hs.armed
    have hphase : (s'.holder 0).phase = .unresolved := (congrArg Holder.phase hbare).trans hs.phase
    have hlive : (s'.holder 0).isCancelled = false := by
      rw [Holder.isCancelled, hphase]
      rfl
    simp only [System.advance, hnone, hlive, harmed, if_true, Bool.false_eq_true, if_false]
    exact enter_doing hs'
  rw [hruns] at henters
  have hentered : (s.lineage.enter 0).runs = [0] := congrArg (· ++ [0]) hruns
  rw [← hentered]
  refine delivers_of_running hidle hduring rfl (hconsumes.trans henters) fun inner s' hs' => ?_
  exact ⟨0, _, conclude_consume (h := 0) hs' (initializer 1).ending, rfl, rfl⟩

/-- An outcome that is there is given to `get`. -/
theorem delivers_get_known {policy : Policy} (hidle : (s.thread t).frames = [])
    (hcurrent : s.current = 0) (ho : (s.holder 0).outcome = some o) :
    s.Delivers initializer t (.get policy) s.runs o := by
  have hcurrent' : s.lineage.current = 0 := hcurrent
  have ho' : (s.lineage.holders s.lineage.current).outcome = some o := by
    rw [hcurrent']
    exact ho
  refine delivers_of_leads hidle ?_
  cases o with
  | ok v =>
    refine leads_observe (fun _ => rfl) fun generation => ?_
    rw [Holder.observe, Holder.peek, ho']
    rfl
  | error e =>
    refine (leads_unseen ?_).trans (leads_entering_some ho')
    rw [Holder.peek, ho']

/-- An outcome that is there is given to the caller who uses the reference up. -/
theorem delivers_intoInner_known (hidle : (s.thread t).frames = []) (hcurrent : s.current = 0)
    (ho : (s.holder 0).outcome = some o) : s.Delivers initializer t .intoInner s.runs o := by
  have hcurrent' : s.lineage.current = 0 := hcurrent
  have hconsumes : Leads initializer t (s.lineage.doing t .intoInner .start)
      (s.lineage.doing t .intoInner (.consuming s.lineage.current)) := leads_consuming
  rw [hcurrent'] at hconsumes
  refine delivers_of_leads hidle (hconsumes.trans (Leads.answer 0 fun s' hs' => ?_))
  have ho' : (s'.holder 0).outcome = some o := (congrArg Holder.outcome hs').trans ho
  rw [System.advance, ho']

end Turns

/-! ## After other calls -/

section Runs

variable {initializer : Nat → Routine T E} {source : Option T} {s : System T E}

theorem Frame.Fits.not_claims {o : Outline T E} {f : Frame T E} (h : f.Fits initializer source o)
    (hprompt : f.call.Prompt) : f.stage.claims = false := by
  obtain ⟨call, stage⟩ := f
  have hasks : ¬call.Asks := by cases call <;> first | exact id | exact hprompt.elim
  cases stage with
  | rechecking h' | handingBack h' | arming h' | running h' purpose run rest | publishing h' o
  | completing h' o => exact absurd h.2.2.1 hasks
  | _ => rfl

/-- If no call is under way that waits, the reference has its outcome, or nobody has asked for
it. -/
theorem known_or_unasked (hinv : s.outline.Inv initializer source)
    (hprompt : ∀ u, ∀ f ∈ (s.thread u).frames, f.call.Prompt) :
    (∃ o, (s.holder 0).outcome = some o ∧ s.runs = if source.isNone then [0] else []) ∨
      s.Unasked ∧ source = none := by
  have hruns : s.runs = if source.isNone && !(s.holder 0).armed then [0] else [] :=
    hinv.sound.runs
  cases ho : (s.holder 0).outcome with
  | some o =>
    have harmed : (s.holder 0).armed = false := (hinv.sound.possible o ho).2
    rw [harmed, Bool.not_false, Bool.and_true] at hruns
    exact Or.inl ⟨o, rfl, hruns⟩
  | none =>
    have hphase : (s.holder 0).phase = .unresolved := by
      cases hphase : (s.holder 0).phase with
      | unresolved => rfl
      | resolving =>
        obtain ⟨owner, howner, hcount⟩ := hinv.owned
        cases owner with
        | none => exact absurd hphase (howner.1 rfl)
        | some u =>
          have hone : Outline.claimsOf (s.thread u).frames = 1 := (hcount u).trans (if_pos rfl)
          have hzero : Outline.claimsOf (s.thread u).frames = 0 := List.countP_eq_zero.2 fun f hf =>
            by rw [(hinv.standing.frames u f hf).not_claims (hprompt u f hf)]; simp
          omega
      | complete => exact absurd ho (hinv.sound.complete hphase)
      | cancelled => exact absurd hphase hinv.sound.present
    have harmed : (s.holder 0).armed = true := (hinv.sound.unresolved hphase).2
    refine Or.inr ⟨⟨hinv.sound.current, hphase, ho, harmed, ?_⟩, hinv.sound.armed harmed⟩
    rw [hruns, harmed, Bool.not_true, Bool.and_false]
    rfl

/-- Whatever calls were made on a reference, and whatever interrupted them: a caller who uses it up
then gets what a call of `get` would give it, and the initializer is run once in all. If an outcome
was given to anybody before, it is that one; and if nobody has asked for it, it is that of a run
made now. -/
theorem run_consumed (initializer : Nat → Routine T E) (source : Option T)
    (threads : Table (Thread T E))
    (hthreads : ∀ t, (threads.get t).frames = [] ∧ ∀ c ∈ (threads.get t).calls, c.Keeps)
    (hduring : ∀ run, ∀ c ∈ (initializer run).during, c.Keeps) (schedule : List Turn) (t : Nat) :
    let s := (System.start source threads).run initializer schedule
    (s.thread t).frames = [] → (∀ u, ∀ f ∈ (s.thread u).frames, f.call.Prompt) →
      ((s.holder 0).outcome = none → ∀ c ∈ (initializer 1).during, c.Prompt) →
        ∃ o, s.Delivers initializer t .intoInner (if source.isNone then [0] else []) o ∧
          s.Delivers initializer t (.get ⟨false, false⟩) (if source.isNone then [0] else []) o ∧
          (∀ r ∈ s.log, ∀ o', r.answer = .outcome o' → o' = .error .interrupted ∨ o' = o) ∧
          (∀ o', (s.holder 0).outcome = some o' → o = o') ∧
          ((s.holder 0).outcome = none → o = (initializer 1).ending.outcome s.allocations) := by
  intro s hidle hprompt hprompt'
  have hinv : s.outline.Inv initializer source := inv_run (inv_start hthreads) hduring schedule
  have hcurrent : s.current = 0 := hinv.sound.current
  have hearlier : ∀ r ∈ s.log, ∀ o', r.answer = .outcome o' →
      o' = .error .interrupted ∨ (s.holder 0).outcome = some o' :=
    fun r hr o' ho' => outcome_of_log hinv hr ho'
  obtain ⟨o, ho, hruns⟩ | ⟨hunasked, rfl⟩ := known_or_unasked hinv hprompt
  · refine ⟨o, hruns ▸ delivers_intoInner_known hidle hcurrent ho,
      hruns ▸ delivers_get_known hidle hcurrent ho, fun r hr o' ho' => ?_, fun o' ho' => ?_,
      fun hnone => ?_⟩
    · refine (hearlier r hr o' ho').imp_right fun hsome => ?_
      exact Option.some_inj.1 (hsome.symm.trans ho)
    · exact Option.some_inj.1 (ho.symm.trans ho')
    · rw [ho] at hnone
      cases hnone
  · have hduring' := hprompt' hunasked.outcome
    refine ⟨_, delivers_intoInner_unasked hunasked hidle hduring',
      delivers_get_unasked hunasked rfl hidle hduring', fun r hr o' ho' => ?_, fun o' ho' => ?_,
      fun _ => rfl⟩
    · refine (hearlier r hr o' ho').imp_right fun hsome => ?_
      rw [hunasked.outcome] at hsome
      cases hsome
    · rw [hunasked.outcome] at ho'
      cases ho'

/-- An initializer that interrupts its thread, waits and then panics: the reference is used up
before anybody has asked for its outcome, or after. -/
theorem run_consumed_panicking :
    let initializer : Nat → Routine Nat String :=
      fun _ => ⟨[.interruptSelf], some "gate", .panic (.owned "boom")⟩
    let threads : Table (Thread Nat String) :=
      ⟨.idle, [⟨[], [.isFailed, .get ⟨true, false⟩], {}⟩]⟩
    let first : List Turn := List.replicate 3 (.thread 0)
    let all : List Turn := first ++ .opens "gate" :: List.replicate 15 (.thread 0)
    let s := (System.start none threads).run initializer first
    let asked := (System.start none threads).run initializer all
    let boom : Outcome Nat String := .error (.panicked ⟨0, "boom"⟩)
    s.runs = [] ∧ s.Delivers initializer 1 .intoInner [0] boom ∧
      s.Delivers initializer 1 (.get ⟨false, false⟩) [0] boom ∧
      asked.runs = [0] ∧ ∃ o, (asked.holder 0).outcome = some o ∧
        asked.Delivers initializer 1 .intoInner [0] o ∧
        asked.Delivers initializer 1 (.get ⟨false, false⟩) [0] o := by
  intro initializer threads first all s asked boom
  have hthreads : ∀ t, (threads.get t).frames = [] ∧ ∀ c ∈ (threads.get t).calls, c.Keeps := by
    rintro (_ | t)
    · exact ⟨rfl, by simp [threads, Table.get, Call.Keeps]⟩
    · exact ⟨rfl, by simp [threads, Table.get, Thread.idle]⟩
  have hduring : ∀ run, ∀ c ∈ (initializer run).during, c.Keeps := by simp [initializer, Call.Keeps]
  have hprompt : ∀ c ∈ (initializer 1).during, c.Prompt := by simp [initializer, Call.Prompt]
  have hidle : ∀ u, (s.thread u).frames = [] := by rintro (_ | u) <;> rfl
  have hidle' : ∀ u, (asked.thread u).frames = [] := by
    have hrows : asked.threads.rows.length = 1 := by decide +kernel
    have hblank : asked.threads.blank.frames = [] := by decide +kernel
    rintro (_ | u)
    · decide +kernel
    · show (asked.threads.get (u + 1)).frames = []
      rw [Table.get_of_length_le (by rw [hrows]; omega), hblank]
  have hfailed : (asked.holder 0).outcome.isSome = true := by decide +kernel
  obtain ⟨o, ho⟩ := Option.isSome_iff_exists.1 hfailed
  obtain ⟨o₁, hinto, hget, -, -, ho₁⟩ := run_consumed initializer none threads hthreads hduring
    first 1 (hidle 1) (fun u f hf => by rw [hidle u] at hf; cases hf) fun _ => hprompt
  obtain ⟨o₂, hinto', hget', -, ho₂, -⟩ := run_consumed initializer none threads hthreads hduring
    all 1 (hidle' 1) (fun u f hf => by rw [hidle' u] at hf; cases hf) fun _ => hprompt
  have hboom : o₁ = boom := ho₁ rfl
  have hsame : o₂ = o := ho₂ o ho
  rw [hboom] at hinto hget
  rw [hsame] at hinto' hget'
  exact ⟨rfl, hinto, hget, by decide +kernel, o, ho, hinto', hget'⟩

end Runs

end SharedCells.Lazy
