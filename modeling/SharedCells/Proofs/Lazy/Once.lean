import SharedCells.Proofs.Lazy.Moves

/-!
# A reference is resolved once

A reference whose calls leave it its holder comes to one outcome at most, by one run of its
initializer at most, whatever the threads do and in whatever order.

* `Standing`, `Owned`, `Sound` and `Told` are the parts of the invariant: every call stands where
  it may, at most one holds the claim, the holder goes with it, and what was answered went with
  what was published then. `Inv.move` says that every move keeps it.
-/

namespace SharedCells.Lazy

variable {T E : Type}

namespace Outline

/-- Every call stands where it may, and those that have made other calls run the initializer. -/
structure Standing (initializer : Nat → Routine T E) (source : Option T) (o : Outline T E) :
    Prop where
  calls : ∀ t, ∀ c ∈ o.calls t, c.Keeps
  frames : ∀ t, ∀ f ∈ o.frames t, f.Fits initializer source o

/-- How many calls of a thread hold the claim. -/
def claimsOf (frames : List (Frame T E)) : Nat := frames.countP fun f => f.stage.claims

/-- While the holder is being resolved one call holds the claim, otherwise none. -/
def Owned (o : Outline T E) : Prop :=
  ∃ owner : Option Nat, (owner = none ↔ o.phase ≠ .resolving) ∧
    ∀ t, claimsOf (o.frames t) = if owner = some t then 1 else 0

/-- The holder goes with what was run and published. -/
structure Sound (initializer : Nat → Routine T E) (source : Option T) (o : Outline T E) : Prop where
  current : o.current = 0
  present : o.phase ≠ .cancelled
  unresolved : o.phase = .unresolved → o.outcome = none ∧ o.armed = true
  complete : o.phase = .complete → o.outcome ≠ none
  possible : ∀ out, o.outcome = some out → Possible initializer source out ∧ o.armed = false
  armed : o.armed = true → source = none
  runs : o.runs = if source.isNone && !o.armed then [0] else []

/-- The answers went with what was published then: with nothing at first, and from some call on
with the outcome. -/
def Told (o : Outline T E) : Prop :=
  ∃ early late, o.log = early ++ late ∧ (∀ r ∈ early, r.call.Tells none r.answer) ∧
    (∀ r ∈ late, r.call.Tells o.outcome r.answer) ∧ (o.outcome = none → late = [])

/-- What holds of a reference with one holder at all times. -/
structure Inv (initializer : Nat → Routine T E) (source : Option T) (o : Outline T E) : Prop where
  standing : Standing initializer source o
  owned : Owned o
  sound : Sound initializer source o
  told : Told o

end Outline

/-! ## The claim -/

namespace Outline

variable {initializer : Nat → Routine T E} {source : Option T} {o o' : Outline T E} {t : Nat}
  {f : Frame T E} {rest : List (Frame T E)}

theorem frames_put_self (fs : List (Frame T E)) : (o.put t fs).frames t = fs :=
  Function.update_self ..

theorem frames_put_of_ne {u : Nat} (fs : List (Frame T E)) (hu : u ≠ t) :
    (o.put t fs).frames u = o.frames u :=
  Function.update_of_ne hu ..

theorem claimsOf_cons (f : Frame T E) (rest : List (Frame T E)) :
    claimsOf (f :: rest) = claimsOf rest + if f.stage.claims then 1 else 0 :=
  List.countP_cons

/-- The thread whose call holds the claim owns the holder, and no other call holds it. -/
theorem Owned.of_claims (h : Owned o) (hf : o.frames t = f :: rest)
    (hclaims : f.stage.claims = true) :
    o.phase = .resolving ∧ claimsOf rest = 0 ∧ ∀ u, u ≠ t → claimsOf (o.frames u) = 0 := by
  obtain ⟨owner, howner, hcount⟩ := h
  have ht := hcount t
  rw [hf, claimsOf_cons, if_pos hclaims] at ht
  have howns : owner = some t := by
    by_contra hno
    rw [if_neg hno] at ht
    omega
  rw [if_pos howns] at ht
  refine ⟨?_, by omega, fun u hu => ?_⟩
  · by_contra hphase
    rw [howner.2 hphase] at howns
    cases howns
  · rw [hcount u, howns, if_neg]
    intro hsame
    exact hu (Option.some_inj.1 hsame).symm

theorem Owned.of_free (h : Owned o) (hphase : o.phase ≠ .resolving) (u : Nat) :
    claimsOf (o.frames u) = 0 := by
  obtain ⟨owner, howner, hcount⟩ := h
  rw [hcount u, howner.2 hphase]
  rfl

/-- A thread begins, continues or ends calls, and holds the claim as before. -/
theorem Owned.keep (h : Owned o) {fs : List (Frame T E)}
    (hcount : claimsOf fs = claimsOf (o.frames t)) (hphase : o'.phase = o.phase)
    (hframes : o'.frames = (o.put t fs).frames) : Owned o' := by
  obtain ⟨owner, howner, hcounts⟩ := h
  refine ⟨owner, by rw [hphase, howner], fun u => ?_⟩
  rw [hframes]
  by_cases hu : u = t
  · rw [hu, frames_put_self, hcount, hcounts]
  · rw [frames_put_of_ne fs hu, hcounts]

/-- A thread gives up the claim. -/
theorem Owned.free (hphase : o'.phase ≠ .resolving) {fs : List (Frame T E)}
    (hcount : claimsOf fs = 0) (hothers : ∀ u, u ≠ t → claimsOf (o.frames u) = 0)
    (hframes : o'.frames = (o.put t fs).frames) : Owned o' := by
  refine ⟨none, by simp [hphase], fun u => ?_⟩
  rw [hframes, if_neg (by simp)]
  by_cases hu : u = t
  · rw [hu, frames_put_self, hcount]
  · rw [frames_put_of_ne fs hu, hothers u hu]

theorem Owned.move (h : Owned o) (hmove : Moves initializer source o t o') : Owned o' := by
  cases hmove with
  | stays => exact h
  | begins hf hcalls => exact h.keep (by rw [hf]; rfl) rfl rfl
  | @nests call c h' run purpose cs rest hf =>
    refine h.keep ?_ rfl rfl
    rw [hf]
    cases purpose <;> rfl
  | passes hf hclaims hfits =>
    refine h.keep ?_ rfl rfl
    rw [hf, claimsOf_cons, claimsOf_cons, hclaims]
  | @replies call stage a rest hf hclaims htells =>
    obtain ⟨log, hreply, -⟩ := o.reply_eq t rest call a
    rw [hreply]
    refine h.keep ?_ rfl rfl
    rw [hf, claimsOf_cons, hclaims]
    rfl
  | @claims call stage stage' rest hf hphase hclaims hclaims' hfits =>
    have hfree := h.of_free (by rw [hphase]; simp)
    refine ⟨some t, by simp, fun u => ?_⟩
    show claimsOf ((o.put t (⟨call, stage'⟩ :: rest)).frames u) = _
    by_cases hu : u = t
    · have hrest := hfree t
      rw [hf, claimsOf_cons, hclaims] at hrest
      rw [hu, frames_put_self, claimsOf_cons, hclaims', if_pos rfl, if_pos rfl]
      omega
    · rw [frames_put_of_ne _ hu, hfree u, if_neg]
      simpa using fun hsame => hu hsame.symm
  | handsBack hasks hf =>
    obtain ⟨-, hrest, hothers⟩ := h.of_claims hf rfl
    exact Owned.free (by simp) (by rw [claimsOf_cons, hrest]; rfl) hothers rfl
  | enters hasks hf harmed => exact h.keep (by rw [hf]; rfl) rfl rfl
  | publishes hasks hf => exact h.keep (by rw [hf]; rfl) rfl rfl
  | completes hasks hf =>
    obtain ⟨-, hrest, hothers⟩ := h.of_claims hf rfl
    exact Owned.free (by simp) (by rw [claimsOf_cons, hrest]; rfl) hothers rfl

end Outline

/-! ## Where calls stand -/

theorem After.Fits.mono {published published' : Option (Outcome T E)} {call : Call}
    {after : After T E} (h : after.Fits published call)
    (hle : ∀ out, published = some out → published' = some out) : after.Fits published' call := by
  cases after with
  | giveUp h' => exact h
  | resolve h' => exact h
  | answer a =>
    cases a with
    | outcome out => exact ⟨h.1, hle out h.2⟩
    | _ => exact h

/-- A call without the claim stands as well once more is published. -/
theorem Stage.Fits.mono {initializer : Nat → Routine T E} {source : Option T}
    {published published' : Option (Outcome T E)} {armed armed' : Bool} {call : Call}
    {stage : Stage T E} (h : stage.Fits initializer source published armed call)
    (hclaims : stage.claims = false)
    (hle : ∀ out, published = some out → published' = some out) :
    stage.Fits initializer source published' armed' call := by
  cases stage with
  | draining h' after => exact ⟨h.1, h.2.mono hle⟩
  | waking threads after => exact After.Fits.mono h hle
  | running h' purpose run calls =>
    obtain ⟨-, -, -, -, rfl, -⟩ := h
    cases hclaims
  | rechecking | handingBack | arming | publishing | completing => cases hclaims
  | _ => exact h

namespace Outline

variable {initializer : Nat → Routine T E} {source : Option T} {o o' : Outline T E} {t : Nat}
  {f : Frame T E} {rest : List (Frame T E)}

theorem not_claims_of_claimsOf {frames : List (Frame T E)} (h : claimsOf frames = 0)
    (hf : f ∈ frames) : f.stage.claims = false := by
  simpa using List.countP_eq_zero.1 h f hf

/-- What a move changes for one thread only. -/
theorem Standing.keep (h : Standing initializer source o) {fs : List (Frame T E)}
    (hframes : o'.frames = (o.put t fs).frames) (hcalls : ∀ u, ∀ c ∈ o'.calls u, c.Keeps)
    (hothers : ∀ u, u ≠ t → ∀ f ∈ o.frames u, f.Fits initializer source o →
      f.Fits initializer source o')
    (hfs : ∀ f ∈ fs, f.Fits initializer source o') : Standing initializer source o' := by
  refine ⟨hcalls, fun u f hf => ?_⟩
  rw [hframes] at hf
  by_cases hu : u = t
  · rw [hu, frames_put_self] at hf
    exact hfs f hf
  · rw [frames_put_of_ne fs hu] at hf
    exact hothers u hu f hf (h.frames u f hf)

theorem Standing.tail (h : Standing initializer source o) (hf : o.frames t = f :: rest) :
    ∀ g ∈ rest, g.Fits initializer source o :=
  fun g hg => h.frames t g (hf ▸ List.mem_cons_of_mem f hg)

theorem Standing.head (h : Standing initializer source o) (hf : o.frames t = f :: rest) :
    f.Fits initializer source o :=
  h.frames t f (hf ▸ List.mem_cons_self)

/-- Calls without the claim stand as well once more is published. -/
theorem fits_of_count {frames : List (Frame T E)} (hcount : claimsOf frames = 0)
    (hle : ∀ out, o.outcome = some out → o'.outcome = some out) (hf : f ∈ frames)
    (h : f.Fits initializer source o) : f.Fits initializer source o' :=
  ⟨h.1, h.2.mono (not_claims_of_claimsOf hcount hf) hle⟩

/-- The innermost call of a thread goes on. -/
theorem Standing.goesOn (h : Standing initializer source o) (hf : o.frames t = f :: rest)
    {f' : Frame T E} (hframes : o'.frames = (o.put t (f' :: rest)).frames)
    (hcalls : o'.calls = o.calls)
    (hothers : ∀ u, u ≠ t → ∀ g ∈ o.frames u, g.Fits initializer source o →
      g.Fits initializer source o')
    (hrest : ∀ g ∈ rest, g.Fits initializer source o → g.Fits initializer source o')
    (hfit : f'.Fits initializer source o') : Standing initializer source o' := by
  refine h.keep hframes (hcalls ▸ h.calls) hothers fun g hg => ?_
  rcases List.mem_cons.1 hg with rfl | hg
  · exact hfit
  · exact hrest g hg (h.tail hf g hg)

theorem Standing.move (h : Standing initializer source o) (howned : Owned o)
    (hsound : Sound initializer source o)
    (hduring : ∀ run, ∀ c ∈ (initializer run).during, c.Keeps)
    (hmove : Moves initializer source o t o') : Standing initializer source o' := by
  cases hmove with
  | stays => exact h
  | @begins call calls hf hcalls =>
    have hkeeps : ∀ c ∈ call :: calls, c.Keeps := hcalls ▸ h.calls t
    refine h.keep rfl (fun u c hc => ?_) (fun _ _ _ _ => id) fun f hf' => ?_
    · by_cases hu : u = t
      · subst hu
        have hmem : c ∈ calls := by simpa using hc
        exact hkeeps c (List.mem_cons_of_mem _ hmem)
      · have hmem : c ∈ o.calls u := by simpa [Outline.put, hu] using hc
        exact h.calls u c hmem
    · rw [List.mem_singleton.1 hf']
      exact ⟨hkeeps call List.mem_cons_self, trivial⟩
  | @nests call c h' run purpose cs rest hf =>
    obtain ⟨hkeeps, hzero, hasks, hnone, harmed, hpurpose, hrun, hsource, hcalls⟩ := h.head hf
    have hrest : ∀ c ∈ cs, c.Keeps := fun c hc => hcalls c (List.mem_cons_of_mem _ hc)
    refine h.keep rfl h.calls (fun _ _ _ _ => id) fun f hf' => ?_
    rcases List.mem_cons.1 hf' with rfl | hf'
    · exact ⟨hcalls c List.mem_cons_self, trivial⟩
    · rcases List.mem_cons.1 hf' with rfl | hf'
      · exact ⟨hkeeps, hzero, hasks, hnone, harmed, hpurpose, hrun, hsource, hrest⟩
      · exact h.tail hf f hf'
  | passes hf hclaims hfits =>
    exact h.goesOn hf rfl rfl (fun _ _ _ _ => id) (fun _ _ => id) ⟨(h.head hf).1, hfits⟩
  | @replies call stage a rest hf hclaims htells =>
    obtain ⟨log, hreply, -⟩ := o.reply_eq t rest call a
    rw [hreply]
    exact h.keep rfl h.calls (fun _ _ _ _ => id) (h.tail hf)
  | claims hf hphase hclaims hclaims' hfits =>
    obtain ⟨hnone, harmed⟩ := hsound.unresolved hphase
    exact h.goesOn hf rfl rfl (fun _ _ _ _ => id) (fun _ _ => id)
      ⟨(h.head hf).1, hfits hnone harmed⟩
  | handsBack hasks hf =>
    exact h.goesOn hf rfl rfl (fun _ _ _ _ => id) (fun _ _ => id)
      ⟨(h.head hf).1, rfl, rfl, hasks⟩
  | enters hasks hf harmed =>
    obtain ⟨-, hrest, hothers⟩ := howned.of_claims hf rfl
    obtain ⟨hkeeps, -, -, hnone, -⟩ := h.head hf
    have hsource := hsound.armed harmed
    have hruns : o.runs = [] := by rw [hsound.runs, harmed]; simp
    refine h.goesOn hf rfl rfl (fun u hu _ => fits_of_count (hothers u hu) fun _ => id)
      (fun _ => fits_of_count hrest fun _ => id) ?_
    rw [hruns]
    exact ⟨hkeeps, rfl, hasks, hnone, rfl, rfl, rfl, hsource, hduring 1⟩
  | @publishes call out rest hasks hf =>
    obtain ⟨-, hrest, hothers⟩ := howned.of_claims hf rfl
    obtain ⟨hkeeps, -, -, hnone, harmed, -⟩ := h.head hf
    have hle : ∀ out', o.outcome = some out' → some out = some out' := by
      intro out' hout
      rw [hnone] at hout
      cases hout
    exact h.goesOn hf rfl rfl (fun u hu _ => fits_of_count (hothers u hu) hle)
      (fun _ => fits_of_count hrest hle) ⟨hkeeps, rfl, hasks, rfl, harmed⟩
  | completes hasks hf =>
    obtain ⟨hkeeps, -, -, hout, -⟩ := h.head hf
    exact h.goesOn hf rfl rfl (fun _ _ _ _ => id) (fun _ _ => id) ⟨hkeeps, rfl, hasks, hout⟩

/-! ## The holder -/

theorem Sound.keep (h : Sound initializer source o) (hcurrent : o'.current = o.current)
    (hphase : o'.phase = o.phase) (houtcome : o'.outcome = o.outcome)
    (harmed : o'.armed = o.armed) (hruns : o'.runs = o.runs) : Sound initializer source o' := by
  obtain ⟨current, phase, outcome, armed, runs, log, frames, calls⟩ := o'
  cases hcurrent
  cases hphase
  cases houtcome
  cases harmed
  cases hruns
  exact ⟨h.current, h.present, h.unresolved, h.complete, h.possible, h.armed, h.runs⟩

theorem Sound.move (h : Sound initializer source o) (hstanding : Standing initializer source o)
    (howned : Owned o) (hmove : Moves initializer source o t o') :
    Sound initializer source o' := by
  cases hmove with
  | stays => exact h
  | begins hf hcalls => exact h.keep rfl rfl rfl rfl rfl
  | nests hf => exact h.keep rfl rfl rfl rfl rfl
  | passes hf hclaims hfits => exact h.keep rfl rfl rfl rfl rfl
  | @replies call stage a rest hf hclaims htells =>
    obtain ⟨log, hreply, -⟩ := o.reply_eq t rest call a
    rw [hreply]
    exact h.keep rfl rfl rfl rfl rfl
  | claims hf hphase hclaims hclaims' hfits =>
    exact ⟨h.current, by simp, by simp, by simp, h.possible, h.armed, h.runs⟩
  | handsBack hasks hf =>
    obtain ⟨-, -, -, hnone, harmed⟩ := hstanding.head hf
    exact ⟨h.current, by simp, fun _ => ⟨hnone, harmed⟩, by simp, h.possible, h.armed, h.runs⟩
  | enters hasks hf harmed =>
    obtain ⟨hphase, -, -⟩ := howned.of_claims hf rfl
    have hsource := h.armed harmed
    have hruns : o.runs = [] := by rw [h.runs, harmed]; simp
    refine ⟨h.current, h.present, fun hunresolved => ?_, h.complete, fun out hout => ?_, by simp,
      ?_⟩
    · have hno : o.phase = .unresolved := hunresolved
      rw [hphase] at hno
      cases hno
    · exact ⟨(h.possible out hout).1, rfl⟩
    · rw [hruns, hsource]
      rfl
  | publishes hasks hf =>
    obtain ⟨hphase, -, -⟩ := howned.of_claims hf rfl
    obtain ⟨-, -, -, hnone, harmed, hpossible⟩ := hstanding.head hf
    refine ⟨h.current, h.present, fun hunresolved => ?_, by simp, fun out hout => ?_, h.armed,
      h.runs⟩
    · have hno : o.phase = .unresolved := hunresolved
      rw [hphase] at hno
      cases hno
    · cases hout
      exact ⟨hpossible, harmed⟩
  | completes hasks hf =>
    obtain ⟨-, -, -, hout, -⟩ := hstanding.head hf
    refine ⟨h.current, by simp, by simp, fun _ hnone => ?_, h.possible, h.armed, h.runs⟩
    have hno : o.outcome = none := hnone
    rw [hout] at hno
    cases hno

/-! ## The answers -/

theorem Told.keep (h : Told o) (houtcome : o'.outcome = o.outcome) (hlog : o'.log = o.log) :
    Told o' := by
  obtain ⟨early, late, heq, hearly, hlate, hnone⟩ := h
  exact ⟨early, late, hlog.trans heq, hearly, by rwa [houtcome], by rwa [houtcome]⟩

theorem Told.append (h : Told o) {log : List (Reply T E)}
    (hlog : ∀ r ∈ log, r.call.Tells o.outcome r.answer) (houtcome : o'.outcome = o.outcome)
    (heq' : o'.log = o.log ++ log) : Told o' := by
  obtain ⟨early, late, heq, hearly, hlate, hnone⟩ := h
  cases hout : o.outcome with
  | none =>
    rw [hout] at hlog
    refine ⟨early ++ log, [], ?_, fun r hr => ?_, by simp, fun _ => rfl⟩
    · rw [heq', heq, hnone hout, List.append_nil, List.append_nil]
    · rcases List.mem_append.1 hr with hr | hr
      · exact hearly r hr
      · exact hlog r hr
  | some out =>
    refine ⟨early, late ++ log, ?_, hearly, fun r hr => ?_, fun hno => ?_⟩
    · rw [heq', heq, List.append_assoc]
    · rw [houtcome]
      rcases List.mem_append.1 hr with hr | hr
      · exact hlate r hr
      · exact hlog r hr
    · rw [houtcome, hout] at hno
      cases hno

theorem Told.move (h : Told o) (hstanding : Standing initializer source o)
    (hmove : Moves initializer source o t o') : Told o' := by
  cases hmove with
  | stays => exact h
  | begins hf hcalls => exact h.keep rfl rfl
  | nests hf => exact h.keep rfl rfl
  | passes hf hclaims hfits => exact h.keep rfl rfl
  | @replies call stage a rest hf hclaims htells =>
    obtain ⟨log, hreply, hlog⟩ := o.reply_eq t rest call a
    rw [hreply]
    refine h.append (fun r hr => ?_) rfl rfl
    obtain ⟨hcall, hanswer⟩ := hlog r hr
    rw [hcall, hanswer]
    exact htells
  | claims hf hphase hclaims hclaims' hfits => exact h.keep rfl rfl
  | handsBack hasks hf => exact h.keep rfl rfl
  | enters hasks hf harmed => exact h.keep rfl rfl
  | publishes hasks hf =>
    obtain ⟨-, -, -, hnone, -⟩ := hstanding.head hf
    obtain ⟨early, late, heq, hearly, hlate, hempty⟩ := h
    refine ⟨early, [], ?_, hearly, by simp, fun _ => rfl⟩
    show o.log = early ++ []
    rw [heq, hempty hnone]
  | completes hasks hf => exact h.keep rfl rfl

theorem Inv.move (h : Inv initializer source o)
    (hduring : ∀ run, ∀ c ∈ (initializer run).during, c.Keeps)
    (hmove : Moves initializer source o t o') : Inv initializer source o' :=
  ⟨h.standing.move h.owned h.sound hduring hmove, h.owned.move hmove,
    h.sound.move h.standing h.owned hmove, h.told.move h.standing hmove⟩

end Outline

section Runs

variable {initializer : Nat → Routine T E} {source : Option T}

/-! ## What a move leaves -/

/-- A move takes no answer back and replaces no outcome. -/
theorem Moves.grows {o o' : Outline T E} {t : Nat}
    (hstanding : Outline.Standing initializer source o)
    (hmove : Moves initializer source o t o') :
    (∃ later, o'.log = o.log ++ later) ∧ ∀ out, o.outcome = some out → o'.outcome = some out := by
  cases hmove with
  | @replies call stage a rest hf hclaims htells =>
    obtain ⟨log, hreply, -⟩ := o.reply_eq t rest call a
    rw [hreply]
    exact ⟨⟨log, rfl⟩, fun _ => id⟩
  | publishes hasks hf =>
    obtain ⟨-, -, -, hnone, -⟩ := hstanding.head hf
    refine ⟨⟨[], (List.append_nil _).symm⟩, fun out hout => ?_⟩
    rw [hnone] at hout
    cases hout
  | _ => exact ⟨⟨[], (List.append_nil _).symm⟩, fun _ => id⟩

/-- Only a call that is to get the outcome starts the initializer. -/
theorem Moves.starts {o o' : Outline T E} {t : Nat} (hmove : Moves initializer source o t o')
    (hruns : o'.runs ≠ o.runs) :
    ∃ call rest, o.frames t = ⟨call, .arming 0⟩ :: rest ∧ call.Asks := by
  cases hmove with
  | @replies call stage a rest hf hclaims htells =>
    obtain ⟨log, hreply, -⟩ := o.reply_eq t rest call a
    rw [hreply] at hruns
    exact absurd rfl hruns
  | enters hasks hf harmed => exact ⟨_, _, hf, hasks⟩
  | _ => exact absurd rfl hruns

/-! ## Runs -/

/-- What holds of a reference whose calls leave it its holder. -/
structure Once (initializer : Nat → Routine T E) (source : Option T) (s : System T E) : Prop where
  /-- The initializer runs at most once, and not at all if the value was there. -/
  runs : s.runs = [] ∨ s.runs = [0] ∧ source = none
  /-- All calls that are not interrupted get the one outcome, after the initializer has run. -/
  same : ∀ r ∈ s.log, ∀ o, r.answer = .outcome o → o = .error .interrupted ∨
    (s.holder 0).outcome = some o ∧ Possible initializer source o ∧
      s.runs = if source.isNone then [0] else []
  /-- A call of `get` or `force` gets an outcome. -/
  answered : ∀ r ∈ s.log, (∃ policy, r.call = .get policy) ∨
    (∃ h interruptible, r.call = .force h interruptible) → ∃ o, r.answer = .outcome o
  /-- No call finds the reference cancelled. -/
  neverCancelled : ∀ r ∈ s.log, r.answer ≠ .outcome (.error .cancelled)
  /-- The reference is never both initialized and failed. -/
  exclusive : ∀ r ∈ s.log, ∀ r' ∈ s.log, r.call = .isInitialized → r'.call = .isFailed →
    r.answer = .flag true → r'.answer = .flag false
  /-- Once it is initialized, or failed, it stays so. -/
  lasting : ∀ before r after, s.log = before ++ r :: after →
    r.call = .isInitialized ∨ r.call = .isFailed → r.answer = .flag true →
      ∀ r' ∈ after, r'.call = r.call → r'.answer = .flag true
  /-- Only a call that is to get the outcome starts the initializer. -/
  starts : ∀ turn, (s.step initializer turn).runs ≠ s.runs → ∃ t call rest, turn = .thread t ∧
    (s.thread t).frames = ⟨call, .arming 0⟩ :: rest ∧ call.Asks

variable {s : System T E} {threads : Table (Thread T E)}

theorem outline_start_none :
    (System.start none threads).outline =
      ⟨0, .unresolved, none, true, [], [], fun t => (threads.get t).frames,
        fun t => (threads.get t).calls⟩ := rfl

theorem outline_start_some (v : T) :
    (System.start (some v) threads).outline =
      ⟨0, .complete, some (.ok ⟨0, v⟩), false, [], [], fun t => (threads.get t).frames,
        fun t => (threads.get t).calls⟩ := rfl

/-- A call on no thread stands anywhere, so nothing is claimed. -/
theorem inv_idle {o : Outline T E} (hframes : ∀ t, o.frames t = [])
    (hcalls : ∀ t, ∀ c ∈ o.calls t, c.Keeps) (hphase : o.phase ≠ .resolving)
    (hsound : o.Sound initializer source) (hlog : o.log = []) : o.Inv initializer source := by
  refine ⟨⟨hcalls, fun t f hf => ?_⟩, ⟨none, by simp [hphase], fun t => ?_⟩, hsound, [], [], hlog,
    by simp, by simp, fun _ => rfl⟩
  · rw [hframes] at hf
    cases hf
  · rw [hframes]
    rfl

theorem inv_start
    (hthreads : ∀ t, (threads.get t).frames = [] ∧ ∀ c ∈ (threads.get t).calls, c.Keeps) :
    (System.start source threads : System T E).outline.Inv initializer source := by
  cases source with
  | none =>
    rw [outline_start_none]
    refine inv_idle (fun t => (hthreads t).1) (fun t => (hthreads t).2) (by simp) ?_ rfl
    exact ⟨rfl, by simp, fun _ => ⟨rfl, rfl⟩, by simp, by simp, fun _ => rfl, rfl⟩
  | some v =>
    rw [outline_start_some]
    refine inv_idle (fun t => (hthreads t).1) (fun t => (hthreads t).2) (by simp) ?_ rfl
    refine ⟨rfl, by simp, by simp, by simp, fun out hout => ?_, by simp, rfl⟩
    exact ⟨(Option.some_inj.1 hout).symm, rfl⟩

theorem inv_step (h : s.outline.Inv initializer source)
    (hduring : ∀ run, ∀ c ∈ (initializer run).during, c.Keeps) (turn : Turn) :
    (s.step initializer turn).outline.Inv initializer source := by
  obtain ⟨t, hmove⟩ := step_moves h.sound.current h.sound.present h.standing.frames turn
  exact h.move hduring hmove

theorem inv_run (h : s.outline.Inv initializer source)
    (hduring : ∀ run, ∀ c ∈ (initializer run).during, c.Keeps) (schedule : List Turn) :
    (s.run initializer schedule).outline.Inv initializer source := by
  induction schedule generalizing s with
  | nil => exact h
  | cons turn schedule ih => exact ih (inv_step h hduring turn)

theorem run_grows (h : s.outline.Inv initializer source)
    (hduring : ∀ run, ∀ c ∈ (initializer run).during, c.Keeps) (schedule : List Turn) :
    (∃ later, (s.run initializer schedule).log = s.log ++ later) ∧
      ∀ out, (s.holder 0).outcome = some out →
        ((s.run initializer schedule).holder 0).outcome = some out := by
  induction schedule generalizing s with
  | nil => exact ⟨⟨[], (List.append_nil _).symm⟩, fun _ => id⟩
  | cons turn schedule ih =>
    obtain ⟨t, hmove⟩ := step_moves h.sound.current h.sound.present h.standing.frames turn
    obtain ⟨⟨new, hnew⟩, hkeeps⟩ := hmove.grows h.standing
    obtain ⟨⟨later, hlater⟩, hrest⟩ := ih (inv_step h hduring turn)
    refine ⟨⟨new ++ later, ?_⟩, fun out hout => hrest out (hkeeps out hout)⟩
    have hstep : (s.step initializer turn).log = s.log ++ new := hnew
    rw [← List.append_assoc, ← hstep]
    exact hlater

theorem step_starts (h : s.outline.Inv initializer source) {turn : Turn}
    (hruns : (s.step initializer turn).runs ≠ s.runs) :
    ∃ t call rest, turn = .thread t ∧ (s.thread t).frames = ⟨call, .arming 0⟩ :: rest ∧
      call.Asks := by
  cases turn with
  | thread t =>
    have hmove := stepThread_moves h.sound.current h.sound.present (h.standing.frames t)
    obtain ⟨call, rest, hf, hasks⟩ := hmove.starts hruns
    exact ⟨t, call, rest, rfl, hf, hasks⟩
  | claimFails t =>
    refine absurd ?_ hruns
    rw [System.step]
    split <;> rfl
  | wakes t =>
    refine absurd ?_ hruns
    rw [System.step]
    split <;> rfl
  | opens gate => exact absurd rfl hruns

theorem Call.outcome_of_tells {call : Call} {published : Option (Outcome T E)} {o : Outcome T E}
    (h : call.Tells published (.outcome o)) : o = .error .interrupted ∨ published = some o := by
  cases call with
  | get policy =>
    rcases h with h | ⟨o', ho, h⟩ <;> cases h
    · exact Or.inl rfl
    · exact Or.inr ho
  | force h' interruptible =>
    rcases h with h | ⟨o', ho, h⟩ <;> cases h
    · exact Or.inl rfl
    · exact Or.inr ho
  | resolve h' policy =>
    rcases h with h | ⟨o', ho, h⟩ | h <;> cases h
    · exact Or.inl rfl
    · exact Or.inr ho
  | inspect =>
    obtain ⟨n, h⟩ := h
    cases h
  | tryGet | isInitialized | isFailed | isCancelled => cases h
  | _ => exact absurd rfl (h o)

theorem Possible.ne_cancelled {o : Outcome T E} (h : Possible initializer source o) :
    o ≠ .error .cancelled := by
  rintro rfl
  cases source with
  | some v => cases h
  | none =>
    obtain ⟨address, h⟩ := h
    cases hending : (initializer 1).ending <;> rw [hending] at h <;> cases h

theorem Outline.Told.tells {o : Outline T E} (h : o.Told) {r : Reply T E} (hr : r ∈ o.log) :
    ∃ published, (published = none ∨ published = o.outcome) ∧ r.call.Tells published r.answer := by
  obtain ⟨early, late, heq, hearly, hlate, -⟩ := h
  have hmem : r ∈ early ++ late := heq ▸ hr
  rcases List.mem_append.1 hmem with hmem | hmem
  · exact ⟨none, Or.inl rfl, hearly r hmem⟩
  · exact ⟨o.outcome, Or.inr rfl, hlate r hmem⟩

theorem outcome_of_log (h : s.outline.Inv initializer source) {r : Reply T E} (hr : r ∈ s.log)
    {o : Outcome T E} (ho : r.answer = .outcome o) :
    o = .error .interrupted ∨ (s.holder 0).outcome = some o := by
  obtain ⟨published, hpublished, htells⟩ := h.told.tells hr
  rw [ho] at htells
  rcases Call.outcome_of_tells htells with hinterrupted | hout
  · exact Or.inl hinterrupted
  · rcases hpublished with rfl | rfl
    · cases hout
    · exact Or.inr hout

theorem answered_of_told {o : Outline T E} (h : o.Told) {r : Reply T E} (hr : r ∈ o.log)
    (hcall : (∃ policy, r.call = .get policy) ∨
      ∃ h' interruptible, r.call = .force h' interruptible) :
    ∃ out, r.answer = .outcome out := by
  obtain ⟨published, -, htells⟩ := h.tells hr
  rcases hcall with ⟨policy, hcall⟩ | ⟨h', interruptible, hcall⟩
  · rw [hcall] at htells
    rcases htells with hinterrupted | ⟨out, -, hout⟩
    · exact ⟨_, hinterrupted⟩
    · exact ⟨out, hout⟩
  · rw [hcall] at htells
    rcases htells with hinterrupted | ⟨out, -, hout⟩
    · exact ⟨_, hinterrupted⟩
    · exact ⟨out, hout⟩

/-- What a call answers that asks for a flag: no, while nothing is published. -/
theorem tells_flag {call : Call} (hcall : call = .isInitialized ∨ call = .isFailed) :
    ∃ flag : Option (Outcome T E) → Bool, flag none = false ∧
      ∀ published a, call.Tells published a → a = .flag (flag published) := by
  rcases hcall with rfl | rfl
  · exact ⟨fun published => (valueOf published).isSome, rfl, fun _ _ h => h⟩
  · exact ⟨failureIn, rfl, fun _ _ h => h⟩

theorem exclusive_of_told {o : Outline T E} (h : o.Told) {r r' : Reply T E} (hr : r ∈ o.log)
    (hr' : r' ∈ o.log) (hcall : r.call = .isInitialized) (hcall' : r'.call = .isFailed)
    (htrue : r.answer = .flag true) : r'.answer = .flag false := by
  obtain ⟨published, hpublished, htells⟩ := h.tells hr
  rw [hcall, htrue] at htells
  have hvalue : (valueOf o.outcome).isSome = true := by
    rcases hpublished with rfl | rfl
    · cases htells
    · exact (Answer.flag.inj htells).symm
  obtain ⟨v, hv⟩ := Option.isSome_iff_exists.1 hvalue
  obtain ⟨published', hpublished', htells'⟩ := h.tells hr'
  rw [hcall'] at htells'
  rcases hpublished' with rfl | rfl
  · exact htells'
  · rw [eq_of_valueOf hv] at htells'
    exact htells'

theorem lasting_of_told {o : Outline T E} (h : o.Told) {before after : List (Reply T E)}
    {r : Reply T E} (hlog : o.log = before ++ r :: after)
    (hcall : r.call = .isInitialized ∨ r.call = .isFailed) (htrue : r.answer = .flag true) :
    ∀ r' ∈ after, r'.call = r.call → r'.answer = .flag true := by
  intro r' hr' hsame
  obtain ⟨early, late, heq, hearly, hlate, -⟩ := h
  obtain ⟨flag, hnone, htells⟩ := tells_flag (T := T) (E := E) hcall
  have hnot : r ∉ early := by
    intro hr
    have hfalse := htells none r.answer (hearly r hr)
    rw [htrue, hnone] at hfalse
    cases hfalse
  -- The first answer is late, so all that follow it are.
  have hafter : r ∈ late ∧ r' ∈ late := by
    have hsplit := List.append_eq_append_iff.1 (heq.symm.trans hlog)
    rcases hsplit with ⟨mid, -, hmid⟩ | ⟨mid, hmid, hrest⟩
    · rw [hmid]
      exact ⟨by simp, by simp [hr']⟩
    · cases mid with
      | nil =>
        have hlate' : r :: after = late := hrest
        rw [← hlate']
        exact ⟨List.mem_cons_self, List.mem_cons_of_mem r hr'⟩
      | cons r'' mid =>
        rw [List.cons_append, List.cons.injEq] at hrest
        rw [hmid, hrest.1] at hnot
        simp at hnot
  have hfirst := htells o.outcome r.answer (hlate r hafter.1)
  have hlater := htells o.outcome r'.answer (hsame ▸ hlate r' hafter.2)
  rw [hlater, ← hfirst, htrue]

theorem once_of_inv (h : s.outline.Inv initializer source) : Once initializer source s := by
  have hruns : s.runs = if source.isNone && !(s.holder 0).armed then [0] else [] := h.sound.runs
  have hsame : ∀ r ∈ s.log, ∀ o, r.answer = .outcome o → o = .error .interrupted ∨
      (s.holder 0).outcome = some o ∧ Possible initializer source o ∧
        s.runs = if source.isNone then [0] else [] := by
    intro r hr o ho
    rcases outcome_of_log h hr ho with ho | hout
    · exact Or.inl ho
    · obtain ⟨hpossible, harmed⟩ := h.sound.possible o hout
      have harmed' : (s.holder 0).armed = false := harmed
      rw [harmed', Bool.not_false, Bool.and_true] at hruns
      exact Or.inr ⟨hout, hpossible, hruns⟩
  refine ⟨?_, hsame, fun r hr => answered_of_told h.told hr, fun r hr ho => ?_, ?_, ?_,
    fun turn => step_starts h⟩
  · cases source with
    | none =>
      cases harmed : (s.holder 0).armed <;> rw [harmed] at hruns
      · exact Or.inr ⟨hruns, rfl⟩
      · exact Or.inl hruns
    | some v => exact Or.inl hruns
  · rcases hsame r hr _ ho with hno | ⟨-, hpossible, -⟩
    · cases hno
    · exact hpossible.ne_cancelled rfl
  · exact fun r hr r' hr' => exclusive_of_told h.told hr hr'
  · exact fun before r after => lasting_of_told h.told

/-- A reference whose calls leave it its holder is resolved once, after every schedule of its
threads and of what happens to them; what was answered and published then stays. -/
theorem run_once (initializer : Nat → Routine T E) (source : Option T)
    (threads : Table (Thread T E))
    (hthreads : ∀ t, (threads.get t).frames = [] ∧ ∀ c ∈ (threads.get t).calls, c.Keeps)
    (hduring : ∀ run, ∀ c ∈ (initializer run).during, c.Keeps) (schedule more : List Turn) :
    Once initializer source ((System.start source threads).run initializer schedule) ∧
      (∃ later, ((System.start source threads).run initializer (schedule ++ more)).log =
        ((System.start source threads).run initializer schedule).log ++ later) ∧
      ∀ o, (((System.start source threads).run initializer schedule).holder 0).outcome = some o →
        (((System.start source threads).run initializer (schedule ++ more)).holder 0).outcome =
          some o := by
  have hstart : (System.start source threads).outline.Inv initializer source := inv_start hthreads
  have hinv := inv_run hstart hduring schedule
  have hrun : ((System.start source threads).run initializer schedule).run initializer more =
      (System.start source threads).run initializer (schedule ++ more) :=
    (List.foldl_append ..).symm
  refine ⟨once_of_inv hinv, ?_⟩
  rw [← hrun]
  exact run_grows hinv hduring more

/-- One of two threads runs the initializer, which looks at the reference itself; the other one
waits for it. -/
theorem run_once_two_threads :
    let initializer : Nat → Routine Nat String := fun _ => ⟨[.tryGet], none, .value 7⟩
    let threads : Table (Thread Nat String) :=
      ⟨.idle, [⟨[], [.get ⟨false, false⟩, .isFailed], {}⟩, ⟨[], [.get ⟨true, false⟩], {}⟩]⟩
    let schedule := (List.replicate 20 [Turn.thread 0, .thread 1]).flatten
    let s := (System.start none threads).run initializer schedule
    s.runs = [0] ∧
      s.log.map Reply.answer =
        [.value none, .outcome (.ok ⟨0, 7⟩), .outcome (.ok ⟨0, 7⟩), .flag false] ∧
      Once initializer none s := by
  refine ⟨by decide +kernel, by decide +kernel, (run_once _ _ _ ?_ ?_ _ []).1⟩
  · intro t
    rcases t with _ | _ | t
    · exact ⟨rfl, by simp [Table.get, Call.Keeps]⟩
    · exact ⟨rfl, by simp [Table.get, Call.Keeps]⟩
    · exact ⟨rfl, by simp [Table.get, Thread.idle]⟩
  · intro run c hc
    rw [List.mem_singleton.1 hc]
    trivial

end Runs

end SharedCells.Lazy
