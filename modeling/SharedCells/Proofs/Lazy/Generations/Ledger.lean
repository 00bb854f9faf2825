import Mathlib.Data.List.Forall2
import Mathlib.Data.List.Nodup
import SharedCells.Proofs.Lazy.Generations.Advances

/-!
# The ledger of a resettable reference

What holds of all generations at all times is stated with a `Ledger`: which call holds the claim
of a holder, which holder a call has replaced, and what became of the holders that were replaced.
The place of a call is its thread and its depth in the stack of that thread. `Inv` is the
invariant, and its parts say where the calls stand, what the holders hold, which call replaced
which holder, what was counted and what was answered.
-/

namespace SharedCells.Lazy

variable {T E : Type}

/-! ## Stacks -/

/-- What holds of all frames of a stack, each at its depth. -/
def Stacked (P : Nat → Frame T E → Prop) : List (Frame T E) → Prop
  | [] => True
  | f :: rest => P rest.length f ∧ Stacked P rest

theorem Stacked.imp {P Q : Nat → Frame T E → Prop} {frames : List (Frame T E)}
    (h : Stacked P frames) (himp : ∀ d, d < frames.length → ∀ f, P d f → Q d f) :
    Stacked Q frames := by
  induction frames with
  | nil => trivial
  | cons f rest ih =>
    exact ⟨himp _ (Nat.lt_succ_self _) f h.1,
      ih h.2 fun d hd => himp d (Nat.lt_succ_of_lt hd)⟩

theorem Stacked.of_append {P : Nat → Frame T E → Prop} {new rest : List (Frame T E)}
    (h : Stacked P (new ++ rest)) : Stacked P rest := by
  induction new with
  | nil => exact h
  | cons f new ih => exact ih h.2

/-- All stacks of the threads after a change of the top of one of them. -/
theorem Stacked.change {P Q : Nat → Nat → Frame T E → Prop}
    {frames frames' : Nat → List (Frame T E)} {t : Nat} {old new rest : List (Frame T E)}
    (h : ∀ u, Stacked (P u) (frames u))
    (hf : frames t = old ++ rest) (hf' : frames' = Function.update frames t (new ++ rest))
    (hkeep : ∀ u d, (u = t → d < rest.length) → ∀ f, P u d f → Q u d f)
    (hnew : Stacked (Q t) rest → Stacked (Q t) (new ++ rest)) (u : Nat) :
    Stacked (Q u) (frames' u) := by
  rw [hf']
  by_cases hu : u = t
  · subst hu
    rw [Function.update_self]
    have hrest : Stacked (P u) rest := (hf ▸ h u : Stacked (P u) (old ++ rest)).of_append
    exact hnew (hrest.imp fun d hd => hkeep u d fun _ => hd)
  · rw [Function.update_of_ne hu]
    exact (h u).imp fun d _ => hkeep u d fun hno => absurd hno hu

theorem length_update_cons {frames : Nat → List (Frame T E)} {t : Nat} {f : Frame T E}
    {rest : List (Frame T E)} (hf : frames t = f :: rest) (f' : Frame T E) (u : Nat) :
    (Function.update frames t (f' :: rest) u).length = (frames u).length := by
  by_cases hu : u = t
  · rw [hu, Function.update_self, hf]
    rfl
  · rw [Function.update_of_ne hu]

/-- A call is the innermost one of its thread, or it is there after that has moved. -/
theorem mem_update_append {frames : Nat → List (Frame T E)} {t u : Nat} {f f₁ : Frame T E}
    {rest : List (Frame T E)} (hf : frames t = f :: rest) (new : List (Frame T E))
    (hmem : f₁ ∈ frames u) : (u = t ∧ f₁ = f) ∨ f₁ ∈ Function.update frames t (new ++ rest) u := by
  by_cases hu : u = t
  · subst hu
    rw [hf] at hmem
    rw [Function.update_self]
    rcases List.mem_cons.1 hmem with hhead | hrest
    · exact Or.inl ⟨rfl, hhead⟩
    · exact Or.inr (List.mem_append_right _ hrest)
  · rw [Function.update_of_ne hu]
    exact Or.inr hmem

/-! ## What lasts -/

/-- What of a lineage lasts from one turn to the next. -/
structure Later (l l' : Lineage T E) : Prop where
  installed : l.installed ≤ l'.installed
  runs : ∃ more, l'.runs = l.runs ++ more
  outcome : ∀ h o, (l.holders h).outcome = some o → (l'.holders h).outcome = some o
  cancelled : ∀ h, (l.holders h).phase = .cancelled → (l'.holders h).phase = .cancelled
  live : ∀ h, h < l.installed → (l'.holders h).phase = .cancelled →
    (l.holders h).phase = .cancelled
  retired : ∀ h, (l.holders h).retired = true → (l'.holders h).retired = true

theorem Later.isCancelled_eq {l l' : Lineage T E} (hlater : Later l l') {h : Nat}
    (hinstalled : h < l.installed) :
    (l'.holders h).isCancelled = (l.holders h).isCancelled :=
  decide_eq_decide.2 ⟨hlater.live h hinstalled, hlater.cancelled h⟩

theorem Computed.mono {initializer : Nat → Routine T E} {runs more : List Nat} {h : Nat}
    {o : Outcome T E} (hcomputed : Computed initializer runs h o) :
    Computed initializer (runs ++ more) h o := by
  obtain ⟨n, address, hn, ho⟩ := hcomputed
  refine ⟨n, address, ?_, ho⟩
  rw [List.getElem?_append_left (List.getElem?_eq_some_iff.1 hn).1]
  exact hn

/-- What a call may rely on goes over to what it may rely on later. -/
structure Ties.Le (ties ties' : Ties) : Prop where
  near : ∀ h, ties.near h → ties'.near h
  free : ties.free → ties'.free
  due : ∀ h, ties.due h → ties'.due h

section Mono

variable {initializer : Nat → Routine T E} {ties ties' : Ties} {l l' : Lineage T E} {call : Call}

theorem After.Allowed.mono {after : After T E} (h : after.Allowed ties l call)
    (hties : ties.Le ties') (hlater : Later l l') : after.Allowed ties' l' call := by
  cases after with
  | giveUp h' => exact ⟨h.1, hties.near h' h.2⟩
  | resolve h' => exact ⟨h.1, hties.near h' h.2⟩
  | answer a =>
    cases a with
    | outcome o =>
      obtain ⟨hawaits, h', hnear, ho⟩ := h
      exact ⟨hawaits, h', hties.near h' hnear, hlater.outcome h' o ho⟩
    | flag b =>
      cases b with
      | false => exact h
      | true =>
        obtain ⟨hcancel, h', hnear⟩ := h
        exact ⟨hcancel, h', hties.near h' hnear⟩
    | _ => exact h

/-- A call whose claim nobody touches may stand where it stands. -/
theorem Stage.Allowed.mono {stage : Stage T E} (h : stage.Allowed initializer ties l call)
    (hties : ties.Le ties') (hlater : Later l l')
    (hclaimed : ∀ h, stage.claimed = some h →
      (l'.holders h).outcome = (l.holders h).outcome ∧
        (l'.holders h).armed = (l.holders h).armed) :
    stage.Allowed initializer ties' l' call := by
  obtain ⟨more, hruns⟩ := hlater.runs
  cases stage with
  | start => exact hties.free h
  | peeking h' => exact ⟨h.1, hties.near h' h.2⟩
  | entering h' | checking h' | choosing h' | claiming h' | registering h' | watching h'
  | watchingRetired h' | watchingStatus h' | parked h' => exact ⟨h.1, hties.near h' h.2⟩
  | leaving h' wake => exact ⟨h.1, hties.near h' h.2.1, h.2.2⟩
  | rechecking h' | handingBack h' | arming h' =>
    obtain ⟨houtcome, harmed⟩ := hclaimed h' rfl
    exact ⟨h.1, hties.near h' h.2.1, houtcome.trans h.2.2.1, harmed.trans h.2.2.2⟩
  | running h' purpose run calls =>
    obtain ⟨houtcome, harmed⟩ := hclaimed h' rfl
    obtain ⟨hawaits, hnear, hnone, hunarmed, hpurpose, ⟨n, hn, hrun⟩, hcalls⟩ := h
    refine ⟨hawaits, hties.near h' hnear, houtcome.trans hnone, harmed.trans hunarmed, hpurpose,
      ⟨n, ?_, hrun⟩, hcalls⟩
    rw [hruns, List.getElem?_append_left (List.getElem?_eq_some_iff.1 hn).1]
    exact hn
  | publishing h' o =>
    obtain ⟨houtcome, harmed⟩ := hclaimed h' rfl
    obtain ⟨hawaits, hnear, hnone, hunarmed, hcomputed⟩ := h
    refine ⟨hawaits, hties.near h' hnear, houtcome.trans hnone, harmed.trans hunarmed, ?_⟩
    rw [hruns]
    exact hcomputed.mono
  | completing h' o => exact ⟨h.1, hties.near h' h.2.1, hlater.outcome h' o h.2.2⟩
  | draining h' after => exact After.Allowed.mono h hties hlater
  | waking threads after => exact After.Allowed.mono h hties hlater
  | testing h' =>
    exact ⟨h.1, hties.free h.2.1, Nat.lt_of_lt_of_le h.2.2 hlater.installed⟩
  | swapping h' keeps =>
    obtain ⟨hreplaces, hfree, hinstalled, hkeeps⟩ := h
    exact ⟨hreplaces, hties.free hfree, Nat.lt_of_lt_of_le hinstalled hlater.installed,
      hkeeps.trans (hlater.isCancelled_eq hinstalled).symm⟩
  | swapped h' =>
    obtain ⟨hreplaces, hkept | hreplaced⟩ := h
    · exact ⟨hreplaces, Or.inl ⟨hties.free hkept.1, hlater.cancelled h' hkept.2⟩⟩
    · exact ⟨hreplaces, Or.inr ⟨hties.near h' hreplaced.1,
        fun hreset => hties.due h' (hreplaced.2 hreset)⟩⟩
  | counting h' => exact ⟨h.1, hties.near h' h.2.1, hties.due h' h.2.2⟩
  | retiring h' => exact ⟨h.1, hties.near h' h.2⟩
  | unparking u => exact h
  | consuming h' => exact h

end Mono

/-! ## The invariant -/

/-- What the calls on a reference have done to its holders. -/
structure Ledger where
  /-- The place of the call that holds the claim of a holder. -/
  owner : Nat → Option (Nat × Nat)
  /-- The holder that the call at a place has replaced. -/
  target : Nat → Nat → Option Nat
  /-- The holders that were replaced by a reset which has yet to count that. -/
  uncounted : List Nat
  /-- The holders that were replaced by a reset which has ended. -/
  reported : List Nat
  /-- The holders that the call at a place may come upon. -/
  watch : Nat → Nat → Nat → Prop

/-- The ledger in which the call at a place has replaced a holder, or none. -/
def Ledger.aim (g : Ledger) (t d : Nat) (h? : Option Nat) : Ledger :=
  { g with target := Function.update g.target t (Function.update (g.target t) d h?) }

theorem Ledger.aim_self (g : Ledger) (t d : Nat) (h? : Option Nat) :
    (g.aim t d h?).target t d = h? := by
  simp only [aim, Function.update_self]

theorem Ledger.aim_of_ne (g : Ledger) {t d u e : Nat} (h? : Option Nat) (hne : u = t → e ≠ d) :
    (g.aim t d h?).target u e = g.target u e := by
  by_cases hu : u = t
  · subst hu
    simp only [aim, Function.update_self, Function.update_of_ne (hne rfl)]
  · simp only [aim, Function.update_of_ne hu]

/-- What a call may rely on at a place. -/
def Ledger.ties (g : Ledger) (l : Lineage T E) (t d : Nat) (call : Call) : Ties where
  near h := h < l.installed ∧ g.watch t d h ∧ (call.Replaces →
    g.target t d = some h ∧ ((l.holders (h + 1)).phase = .cancelled ↔ call = .cancel))
  free := g.target t d = none
  due h := g.target t d = some h ∧ h ∈ g.uncounted

/-- A call that has begun stands where it may. -/
structure Frame.Sits (initializer : Nat → Routine T E) (g : Ledger) (l : Lineage T E) (t d : Nat)
    (f : Frame T E) : Prop where
  renews : f.call.Renews
  free : ¬f.call.Replaces → g.target t d = none
  allowed : f.stage.Allowed initializer (g.ties l t d f.call) l f.call
  owns : ∀ h, f.stage.claimed = some h → g.owner h = some (t, d)

/-- A run of the initializer is about to be made, or is being made. -/
def Frame.Runs (f : Frame T E) : Prop :=
  ∃ h purpose run calls, f.stage = .running h purpose run calls

/-- All calls stand where they may, and those that have made other calls run the initializer. -/
structure Seated (initializer : Nat → Routine T E) (g : Ledger) (l : Lineage T E) : Prop where
  calls : ∀ t, ∀ c ∈ l.calls t, c.Renews
  frames : ∀ t, Stacked (fun d f => f.Sits initializer g l t d) (l.frames t)
  nested : ∀ t, ∀ f ∈ (l.frames t).tail, f.Runs

/-- A holder goes with what was run for it, and with the call that holds its claim. -/
structure Holder.Sound (initializer : Nat → Routine T E) (runs : List Nat)
    (owner : Option (Nat × Nat)) (h : Nat) (holder : Holder T E) : Prop where
  owner : owner ≠ none → holder.phase = .resolving
  unresolved : holder.phase = .unresolved → holder.outcome = none ∧ holder.armed = true
  cancelled : holder.phase = .cancelled → holder.outcome = none
  armed : holder.armed = true → h ∉ runs
  outcome : ∀ o, holder.outcome = some o → Computed initializer runs h o

/-- The holders are sound, and they were installed one after the other. -/
structure Sound (initializer : Nat → Routine T E) (g : Ledger) (l : Lineage T E) : Prop where
  holders : ∀ h, (l.holders h).Sound initializer l.runs (g.owner h) h
  runs : l.runs.Nodup
  installed : l.installed = l.current + 1
  /-- A holder that was replaced was not cancelled. -/
  live : ∀ h, h < l.current → (l.holders h).phase ≠ .cancelled
  retired : (l.holders l.current).retired = false
  unmade : ∀ h, l.installed ≤ h → l.holders h = .fresh

/-- Every holder that is no longer current was replaced by one call. -/
structure Traced (g : Ledger) (l : Lineage T E) : Prop where
  target : ∀ t d h, g.target t d = some h → d < (l.frames t).length ∧ h < l.current
  unique : ∀ t d t' d' h, g.target t d = some h → g.target t' d' = some h → t = t' ∧ d = d'
  nodup : g.reported.Nodup
  reported : ∀ h ∈ g.reported, h < l.current ∧ (l.holders (h + 1)).phase ≠ .cancelled ∧
    ∀ t d, g.target t d ≠ some h
  all : ∀ h, h < l.current → h ∈ g.reported ∨ (l.holders (h + 1)).phase = .cancelled ∨
    ∃ t d, g.target t d = some h

/-- Whether the current holder is cancelled, as a number. -/
def Lineage.ends (l : Lineage T E) : Nat := if (l.holders l.current).isCancelled then 1 else 0

/-- The generation counts the replacements, but for those that are yet to be counted and for the
last one by a cancel. -/
structure Counted (g : Ledger) (l : Lineage T E) : Prop where
  nodup : g.uncounted.Nodup
  bound : ∀ h ∈ g.uncounted, h < l.current
  place : ∀ h ∈ g.uncounted, ∃ t, ∃ f ∈ l.frames t, f.call = .reset ∧ f.stage.uncounted = some h
  total : l.generation + g.uncounted.length + l.ends = l.current

/-- Whether a call of `reset` has ended that had replaced a generation. -/
def Reply.resets (r : Reply T E) : Bool :=
  match r.call, r.answer with
  | .reset, .outcome (.error .cancelled) => false
  | .reset, _ => true
  | _, _ => false

/-- Whether a call of `cancel` has ended that had cancelled the reference. -/
def Reply.cancels (r : Reply T E) : Bool :=
  match r.call, r.answer with
  | .cancel, .flag true => true
  | _, _ => false

/-- Every reset that has ended gave out the outcome of another generation, and at most one call
has cancelled the reference. -/
structure Told (g : Ledger) (l : Lineage T E) : Prop where
  resets : List.Forall₂
    (fun r h => ∃ o, (l.holders h).outcome = some o ∧ Reply.answer r = .outcome o)
    (l.log.filter Reply.resets) g.reported
  cancels : l.log.countP Reply.cancels = 0 ∨
    l.log.countP Reply.cancels = 1 ∧ (l.holders l.current).phase = .cancelled ∧
      ∀ t d, g.target t d ≠ some (l.current - 1)

structure Inv (initializer : Nat → Routine T E) (g : Ledger) (l : Lineage T E) : Prop where
  seated : Seated initializer g l
  sound : Sound initializer g l
  traced : Traced g l
  counted : Counted g l
  told : Told g l

end SharedCells.Lazy
