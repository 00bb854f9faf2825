import SharedCells.Proofs.Lazy.Interruption.Effects
import SharedCells.Proofs.Lazy.Waiting.Commitment

/-!
# What holds of a reference of either sort

A lineage is `Orderly` if all calls stand where they may, if every holder that is being resolved is
claimed by a call, and if nobody but a call that may be interrupted was told so. No turn disturbs
that (`Orderly.effect`), and what `Lasts` says of the holders lasts from one turn to the next.
-/

namespace SharedCells.Lazy

variable {T E : Type} {initializer : Nat → Routine T E} {l l' : Lineage T E} {flag : Bool}
  {t k : Nat} {call : Call} {stage stage' : Stage T E} {rest : List (Frame T E)}

/-! ## Where calls stand -/

/-- What may follow once waiters are woken. -/
def After.Stands (l : Lineage T E) : After T E → Prop
  | giveUp h | resolve h => h < l.installed
  | answer a => a ≠ .interrupted

/-- Where a call may stand. -/
def Stage.Stands (l : Lineage T E) (call : Call) : Stage T E → Prop
  | start | unparking _ => True
  | peeking h | entering h | checking h | choosing h | claiming h | registering h | watching h
  | watchingRetired h | watchingStatus h | parked h | testing h | swapped h | counting h
  | retiring h | consuming h => h < l.installed
  | arming h | running h _ _ _ => h < l.installed ∧ (l.holders h).phase ≠ .cancelled
  | rechecking h =>
    h < l.installed ∧ (l.holders h).phase ≠ .cancelled ∧ call.policy.leaveOnRetire = true
  | handingBack h =>
    h < l.installed ∧ (l.holders h).phase ≠ .cancelled ∧ call.policy.leaveOnRetire = true ∧
      (l.holders h).retired = true
  | publishing h o | completing h o =>
    h < l.installed ∧ (l.holders h).phase ≠ .cancelled ∧ o ≠ .error .interrupted
  | draining _ after | waking _ after => after.Stands l
  | leaving h wake => h < l.installed ∧ (wake = .interrupted → call.policy.interruptible = true)
  | swapping h keeps => h < l.installed ∧ keeps = (l.holders h).isCancelled

/-- What lasts of the holders. -/
structure Lasts (l l' : Lineage T E) : Prop where
  installed : l.installed ≤ l'.installed
  outcome : ∀ h < l.installed, (l.holders h).outcome ≠ none → (l'.holders h).outcome ≠ none
  retired : ∀ h < l.installed, (l.holders h).retired = true → (l'.holders h).retired = true
  cancelled : ∀ h < l.installed,
    ((l'.holders h).phase = .cancelled ↔ (l.holders h).phase = .cancelled)

theorem Lasts.refl (l : Lineage T E) : Lasts l l :=
  ⟨Nat.le_refl _, fun _ _ => id, fun _ _ => id, fun _ _ => Iff.rfl⟩

theorem Lasts.trans {l'' : Lineage T E} (h : Lasts l l') (h' : Lasts l' l'') : Lasts l l'' where
  installed := Nat.le_trans h.installed h'.installed
  outcome k hk hsome := h'.outcome k (Nat.lt_of_lt_of_le hk h.installed) (h.outcome k hk hsome)
  retired k hk hretired :=
    h'.retired k (Nat.lt_of_lt_of_le hk h.installed) (h.retired k hk hretired)
  cancelled k hk :=
    (h'.cancelled k (Nat.lt_of_lt_of_le hk h.installed)).trans (h.cancelled k hk)

theorem After.Stands.mono {after : After T E} (h : after.Stands l) (hlasts : Lasts l l') :
    after.Stands l' := by
  cases after with
  | giveUp k | resolve k => exact Nat.lt_of_lt_of_le h hlasts.installed
  | answer a => exact h

theorem Stage.Stands.mono (h : stage.Stands l call) (hlasts : Lasts l l') :
    stage.Stands l' call := by
  have hlt : ∀ k, k < l.installed → k < l'.installed := fun k hk =>
    Nat.lt_of_lt_of_le hk hlasts.installed
  have hlive : ∀ k, k < l.installed → (l.holders k).phase ≠ .cancelled →
      (l'.holders k).phase ≠ .cancelled := fun k hk => mt (hlasts.cancelled k hk).1
  cases stage with
  | start | unparking u => trivial
  | peeking k | entering k | checking k | choosing k | claiming k | registering k | watching k
  | watchingRetired k | watchingStatus k | parked k | testing k | swapped k | counting k
  | retiring k | consuming k => exact hlt k h
  | arming k | running k purpose run calls => exact ⟨hlt k h.1, hlive k h.1 h.2⟩
  | rechecking k => exact ⟨hlt k h.1, hlive k h.1 h.2.1, h.2.2⟩
  | handingBack k =>
    exact ⟨hlt k h.1, hlive k h.1 h.2.1, h.2.2.1, hlasts.retired k h.1 h.2.2.2⟩
  | publishing k o | completing k o => exact ⟨hlt k h.1, hlive k h.1 h.2.1, h.2.2⟩
  | draining k after => exact After.Stands.mono h hlasts
  | waking threads after => exact After.Stands.mono h hlasts
  | leaving k wake => exact ⟨hlt k h.1, h.2⟩
  | swapping k keeps =>
    exact ⟨hlt k h.1, h.2.trans (decide_eq_decide.2 (hlasts.cancelled k h.1)).symm⟩

theorem Call.retry_stands (call : Call) {h : Nat} (hinstalled : h < l.installed) :
    (call.retry h : Stage T E).Stands l call := by
  cases call with
  | get policy => trivial
  | _ => exact hinstalled

/-- A call that goes on stands where it may. -/
theorem Stage.Next.stands (h : stage.Next initializer l flag call stage')
    (hstands : stage.Stands l call) (hcurrent : l.current < l.installed)
    (houtcomes : ∀ h, (l.holders h).outcome ≠ some (.error .interrupted)) :
    stage'.Stands l call := by
  cases h with
  | looks | tests | usesUp => exact hcurrent
  | raises | loses => trivial
  | enters | chooses | fails | resolves | registers | watches | remains | parks | unparks
  | counts => exact hstands
  | misses hnone hstage => rcases hstage with rfl | rfl <;> exact hstands
  | finds hstage => rcases hstage with rfl | rfl | rfl <;> exact hstands
  | swapped hstage => rcases hstage with rfl | rfl <;> exact hstands
  | finds_retired | retries => exact call.retry_stands hstands
  | moves => exact call.retry_stands hstands.1
  | renounces hretired => exact ⟨hstands.1, hstands.2.1, hstands.2.2, hretired⟩
  | insists => exact ⟨hstands.1, hstands.2.1⟩
  | runs => exact hstands
  | @recalls h o ho =>
    refine ⟨hstands.1, hstands.2, ?_⟩
    rintro rfl
    exact houtcomes h ho
  | lacks hne | concludes hne => exact ⟨hstands.1, hstands.2, hne⟩
  | drains | wakes => exact hstands
  | released | replaced => exact ⟨hstands, nofun⟩
  | notices hinterruptible hflag => exact ⟨hstands, fun _ => hinterruptible⟩
  | returns => exact hstands.1
  | tested => exact ⟨hstands, rfl⟩
  | spares => exact hstands.1
  | consumes hlive => exact ⟨hstands, hlive⟩

theorem Stage.Changes.stands {h : Nat} {holder : Holder T E}
    (hchanges : stage.Changes call h (l.holders h) holder stage')
    (hstands : stage.Stands l call) : stage'.Stands l call := by
  cases hchanges with
  | claims hphase hstage =>
    have hlive : (l.holders h).phase ≠ .cancelled := by simp [hphase]
    rcases hstage with ⟨rfl, hleaves⟩ | rfl
    · exact ⟨hstands, hlive, hleaves⟩
    · exact ⟨hstands, hlive⟩
  | handsBack => exact hstands.1
  | publishes => exact hstands
  | completes => exact fun hsame => hstands.2.2 (Answer.outcome.inj hsame)
  | retires =>
    cases call with
    | reset => exact hstands
    | _ => exact nofun

/-- A call changes a holder that was installed, and neither cancels it nor revives it. -/
theorem Stage.Changes.lasts {h : Nat} {holder : Holder T E}
    (hchanges : stage.Changes call h (l.holders h) holder stage')
    (hstands : stage.Stands l call) :
    h < l.installed ∧ ((l.holders h).outcome ≠ none → holder.outcome ≠ none) ∧
      ((l.holders h).retired = true → holder.retired = true) ∧
      (holder.phase = .cancelled ↔ (l.holders h).phase = .cancelled) := by
  cases hchanges with
  | claims hphase hstage => exact ⟨hstands, id, id, by simp [hphase]⟩
  | handsBack => exact ⟨hstands.1, id, id, by simp [hstands.2.1]⟩
  | publishes => exact ⟨hstands.1, fun _ => Option.some_ne_none _, id, Iff.rfl⟩
  | completes => exact ⟨hstands.1, id, id, by simp [hstands.2.1]⟩
  | retires => exact ⟨hstands, id, fun _ => rfl, Iff.rfl⟩

/-! ## Claims -/

/-- A call that holds a claim holds it at the next stage too, unless it changes the holder. -/
theorem Stage.Next.resolves_of (h : stage.Next initializer l flag call stage')
    (hresolves : stage.Resolves k) : stage'.Resolves k := by
  cases h with
  | misses _ hstage | swapped hstage => exact hresolves.elim
  | renounces | insists | recalls | runs | lacks | concludes => exact hresolves
  | _ => exact hresolves.elim

theorem Stage.Changes.resolves_of {h : Nat} {holder holder' : Holder T E}
    (hchanges : stage.Changes call h holder holder' stage') (hresolves : stage.Resolves k) :
    stage'.Resolves k ∨ h = k ∧ holder'.phase ≠ .resolving := by
  cases hchanges with
  | claims | retires => exact hresolves.elim
  | handsBack | completes => exact Or.inr ⟨hresolves, nofun⟩
  | publishes => exact Or.inl hresolves

/-- Whoever makes a holder resolving holds the claim of it. -/
theorem Stage.Changes.resolving {h : Nat} {holder holder' : Holder T E}
    (hchanges : stage.Changes call h holder holder' stage') (hphase : holder'.phase = .resolving) :
    holder.phase = .resolving ∨ stage'.Resolves h := by
  cases hchanges with
  | claims _ hstage => rcases hstage with ⟨rfl, -⟩ | rfl <;> exact Or.inr rfl
  | handsBack | completes => cases hphase
  | publishes | retires => exact Or.inl hphase

theorem Stage.Ends.not_resolves {a : Answer T E} (h : stage.Ends l a) (k : Nat) :
    ¬stage.Resolves k := by
  cases h with
  | leaves | wakes => exact id
  | holds hno | other hno => exact hno k

/-- The calls that a call is to make are those of a run that it begins. -/
theorem Stage.Next.pending (h : stage.Next initializer l flag call stage') :
    stage'.pending = [] ∨ ∃ run, stage'.pending = (initializer run).during := by
  cases h with
  | misses _ hstage => rcases hstage with rfl | rfl <;> exact Or.inl rfl
  | finds hstage => rcases hstage with rfl | rfl | rfl <;> exact Or.inl rfl
  | swapped hstage => rcases hstage with rfl | rfl <;> exact Or.inl rfl
  | finds_retired | retries | moves => cases call <;> exact Or.inl rfl
  | @runs h run => exact Or.inr ⟨run, rfl⟩
  | @consumes h run => exact Or.inr ⟨run, rfl⟩
  | _ => exact Or.inl rfl

theorem Stage.Changes.pending {h : Nat} {holder holder' : Holder T E}
    (hchanges : stage.Changes call h holder holder' stage') : stage'.pending = [] := by
  cases hchanges with
  | claims _ hstage => rcases hstage with ⟨rfl, -⟩ | rfl <;> rfl
  | _ => rfl

/-! ## The invariant -/

/-- A call that has begun stands where it may, and it is alone if it may wait. -/
structure Frame.Poised (l : Lineage T E) (d : Nat) (f : Frame T E) : Prop where
  offered : f.call.Offered
  stands : f.stage.Stands l f.call
  lone : f.Lone d
  pending : ∀ c ∈ f.stage.pending, c.Offered

/-- What holds of a reference, whatever its threads do. -/
structure Orderly (l : Lineage T E) : Prop where
  calls : ∀ t, ∀ c ∈ l.calls t, c.Offered
  frames : ∀ t, Stacked (fun d f => f.Poised l d) (l.frames t)
  nested : ∀ t, ∀ f ∈ (l.frames t).tail, f.Runs
  current : l.current < l.installed
  unmade : ∀ h, l.installed ≤ h → (l.holders h).outcome = none
  /-- An interruption is never published. -/
  outcomes : ∀ h, (l.holders h).outcome ≠ some (.error .interrupted)
  /-- A holder that is being resolved is claimed by a call. -/
  resolving : ∀ h, (l.holders h).phase = .resolving → l.Has fun f => f.stage.Resolves h
  /-- Only a call that may be interrupted was told so. -/
  log : ∀ r ∈ l.log, r.answer = .interrupted → ∃ leaves, r.call = .get ⟨true, leaves⟩

namespace Orderly

theorem head (h : Orderly l) {f : Frame T E} (hf : l.frames t = f :: rest) :
    f.Poised l rest.length :=
  (hf ▸ h.frames t : Stacked _ (f :: rest)).1

theorem rest_runs (h : Orderly l) {f : Frame T E} (hf : l.frames t = f :: rest) :
    ∀ f ∈ rest, f.Runs := by
  have hnested := h.nested t
  rwa [hf] at hnested

/-- A call that ends with an interruption leaves the list of waiters. -/
theorem leaving_of_ends (h : Orderly l) (hstands : stage.Stands l call)
    (hends : stage.Ends l .interrupted) : ∃ k, stage = .leaving k .interrupted := by
  cases hends with
  | @leaves k => exact ⟨k, rfl⟩
  | wakes => exact absurd rfl hstands
  | @holds _ k _ hno ho => exact absurd ho (h.outcomes k)
  | other hno hne => exact absurd rfl hne

end Orderly

/-! ## Effects on holders -/

/-- What a turn does to a holder. -/
inductive Effect.OnHolder (l l' : Lineage T E) (t k : Nat) : Prop
  | same : (l'.holders k).phase = (l.holders k).phase →
    (l'.holders k).retired = (l.holders k).retired →
      (l'.holders k).outcome = (l.holders k).outcome → OnHolder l l' t k
  | changed {call : Call} {stage stage' : Stage T E} {rest : List (Frame T E)} :
    l.frames t = ⟨call, stage⟩ :: rest →
      stage.Changes call k (l.holders k) (l'.holders k) stage' →
        l'.frames = Function.update l.frames t (⟨call, stage'⟩ :: rest) → OnHolder l l' t k
  | installed (call : Call) : k = l.installed → l'.holders k = System.replacement call →
    OnHolder l l' t k

theorem Effect.OnHolder.of_eq (h : l'.holders k = l.holders k) : OnHolder l l' t k :=
  .same (congrArg Holder.phase h) (congrArg Holder.retired h) (congrArg Holder.outcome h)

theorem Effect.onHolder (h : Effect initializer l flag t l') (k : Nat) :
    OnHolder l l' t k := by
  cases h with
  | stays | begins | nests => exact .of_eq rfl
  | goes halike => exact .same (halike.phase k) (halike.retired k) (halike.outcome k)
  | @changes call h holder stage stage' rest hf hchanges =>
    by_cases hk : k = h
    · subst hk
      have hholder : ((l.set k holder).put t (⟨call, stage'⟩ :: rest)).holders k = holder :=
        l.holders_set_self ..
      exact .changed hf (hholder.symm ▸ hchanges) rfl
    · exact .of_eq (l.holders_set_of_ne _ hk)
  | @installs call rest hf =>
    by_cases hk : k = l.installed
    · subst hk
      exact .installed call rfl (l.holders_set_self ..)
    · exact .of_eq (l.holders_set_of_ne _ hk)
  | @answers l₀ call stage a rest halike =>
    obtain ⟨log, hreply, -⟩ := l₀.reply_eq t rest call a
    rw [hreply]
    exact .same (halike.phase k) (halike.retired k) (halike.outcome k)

theorem Effect.installed_le (h : Effect initializer l flag t l') :
    l.installed ≤ l'.installed := by
  cases h with
  | goes halike => exact Nat.le_of_eq halike.installed.symm
  | installs => exact Nat.le_succ _
  | @answers l₀ call stage a rest halike =>
    obtain ⟨log, hreply, -⟩ := l₀.reply_eq t rest call a
    rw [hreply]
    exact Nat.le_of_eq halike.installed.symm
  | _ => exact Nat.le_refl _

/-- What of the holders lasts over a turn. -/
theorem Orderly.lasts (h : Orderly l) (heffect : Effect initializer l flag t l') :
    Lasts l l' := by
  have hchange : ∀ k < l.installed,
      ((l.holders k).outcome ≠ none → (l'.holders k).outcome ≠ none) ∧
      ((l.holders k).retired = true → (l'.holders k).retired = true) ∧
      ((l'.holders k).phase = .cancelled ↔ (l.holders k).phase = .cancelled) := by
    intro k hk
    cases heffect.onHolder k with
    | same hphase hretired houtcome => rw [hphase, hretired, houtcome]; exact ⟨id, id, Iff.rfl⟩
    | changed hf hchanges => exact (hchanges.lasts (h.head hf).stands).2
    | installed call hinstalled => exact absurd hinstalled (Nat.ne_of_lt hk)
  exact ⟨heffect.installed_le, fun k hk => (hchange k hk).1, fun k hk => (hchange k hk).2.1,
    fun k hk => (hchange k hk).2.2⟩

/-- Nobody replaces a holder that is cancelled. -/
theorem Orderly.current_of_cancelled (h : Orderly l) (heffect : Effect initializer l flag t l')
    (hcancelled : (l.holders l.current).phase = .cancelled) : l'.current = l.current := by
  cases heffect with
  | goes halike => exact halike.current
  | installs hf =>
    have hkeeps : false = (l.holders l.current).isCancelled := (h.head hf).stands.2
    rw [Holder.isCancelled, hcancelled] at hkeeps
    cases hkeeps
  | @answers l₀ call stage a rest halike =>
    obtain ⟨log, hreply, -⟩ := l₀.reply_eq t rest call a
    rw [hreply]
    exact halike.current
  | _ => rfl

/-! ## Effects on stacks -/

/-- What a turn does to the stack of the thread that moves. -/
inductive Effect.OnFrames (initializer : Nat → Routine T E) (l : Lineage T E) (t : Nat)
    (frames : Nat → List (Frame T E)) : Prop
  | same : frames = l.frames → OnFrames initializer l t frames
  | begins {call : Call} : l.frames t = [] → call ∈ l.calls t →
    frames = Function.update l.frames t [⟨call, .start⟩] → OnFrames initializer l t frames
  | nests {call c : Call} {h run : Nat} {purpose : Purpose} {cs : List Call}
    {rest : List (Frame T E)} :
    l.frames t = ⟨call, .running h purpose run (c :: cs)⟩ :: rest →
      frames = Function.update l.frames t
        (⟨c, .start⟩ :: ⟨call, .running h purpose run cs⟩ :: rest) →
          OnFrames initializer l t frames
  | goes {call : Call} {stage stage' : Stage T E} {rest : List (Frame T E)} :
    l.frames t = ⟨call, stage⟩ :: rest →
      frames = Function.update l.frames t (⟨call, stage'⟩ :: rest) → stage'.Stands l call →
        (stage'.pending = [] ∨ ∃ run, stage'.pending = (initializer run).during) →
          OnFrames initializer l t frames
  | ends {f : Frame T E} {rest : List (Frame T E)} : l.frames t = f :: rest →
    frames = Function.update l.frames t rest → OnFrames initializer l t frames

theorem Orderly.onFrames (h : Orderly l) (heffect : Effect initializer l flag t l') :
    Effect.OnFrames initializer l t l'.frames := by
  cases heffect with
  | stays => exact .same rfl
  | begins hf hcalls => exact .begins hf (hcalls ▸ List.mem_cons_self) rfl
  | nests hf => exact .nests hf rfl
  | @goes l₀ call stage stage' rest halike hf hnext =>
    exact .goes hf (halike.frames_put t _)
      (hnext.stands (h.head hf).stands h.current h.outcomes) hnext.pending
  | changes hf hchanges =>
    exact .goes hf rfl (hchanges.stands (h.head hf).stands) (Or.inl hchanges.pending)
  | installs hf => exact .goes hf rfl h.current (Or.inl rfl)
  | @answers l₀ call stage a rest halike hf =>
    refine .ends hf ?_
    obtain ⟨log, hreply, -⟩ := l₀.reply_eq t rest call a
    rw [hreply]
    exact halike.frames_put t rest

/-! ## Turns -/

/-- A claim is held on to as long as the holder is resolving. -/
theorem Effect.resolves (heffect : Effect initializer l flag t l')
    (hhas : l.Has fun f => f.stage.Resolves k)
    (hresolving : (l'.holders k).phase = .resolving) : l'.Has fun f => f.stage.Resolves k := by
  cases heffect with
  | stays => exact hhas
  | begins hf => exact hhas.change [] [_] hf rfl fun f hmem => nomatch hmem
  | @nests call c h' run purpose cs rest hf =>
    refine hhas.change [_] [_, _] hf rfl fun f hmem hresolves => ⟨_, List.mem_cons_of_mem _
      List.mem_cons_self, ?_⟩
    rw [List.mem_singleton.1 hmem] at hresolves
    cases purpose with
    | publish => exact hresolves
    | consume => exact hresolves.elim
  | @goes l₀ call stage stage' rest halike hf hnext =>
    exact hhas.goesOn hf (halike.frames_put t _) hnext.resolves_of
  | @changes call h' holder stage stage' rest hf hchanges =>
    refine hhas.goesOn hf rfl fun hresolves => ?_
    rcases hchanges.resolves_of hresolves with hkept | ⟨rfl, hphase⟩
    · exact hkept
    · exact absurd ((congrArg Holder.phase (l.holders_set_self h' holder)).symm.trans hresolving)
        hphase
  | installs hf => exact hhas.goesOn hf rfl False.elim
  | @answers l₀ call stage a rest halike hf hends =>
    obtain ⟨u, f, hmem, hresolves⟩ := hhas
    have hhas₀ : l₀.Has fun f => f.stage.Resolves k := ⟨u, f, halike.frames ▸ hmem, hresolves⟩
    exact hhas₀.reply ((congrFun halike.frames t).trans hf) (hends.not_resolves k) a

section Turns

variable (h : Orderly l) (heffect : Effect initializer l flag t l')
  (hduring : ∀ run, ∀ c ∈ (initializer run).during, c.Offered ∧ ¬c.Awaits)

include h heffect

include hduring in
theorem Orderly.frames_effect (u : Nat) :
    Stacked (fun d f => f.Poised l' d) (l'.frames u) := by
  have hlasts := h.lasts heffect
  have hmono : ∀ d (f : Frame T E), f.Poised l d → f.Poised l' d := fun d f hf =>
    ⟨hf.offered, hf.stands.mono hlasts, hf.lone, hf.pending⟩
  have hchange : ∀ old new rest : List (Frame T E), l.frames t = old ++ rest →
      l'.frames = Function.update l.frames t (new ++ rest) →
        (Stacked (fun d f => f.Poised l' d) rest →
          Stacked (fun d f => f.Poised l' d) (new ++ rest)) →
            Stacked (fun d f => f.Poised l' d) (l'.frames u) := fun old new rest hf hf' hnew =>
    Stacked.change (P := fun _ d f => Frame.Poised l d f) (Q := fun _ d f => Frame.Poised l' d f)
      h.frames hf hf' (fun _ d _ f => hmono d f) hnew u
  cases h.onFrames heffect with
  | same hf => exact hf ▸ (h.frames u).imp fun d _ => hmono d
  | @begins call hf hmem hf' =>
    refine hchange [] [⟨call, .start⟩] [] hf hf' fun hrest =>
      ⟨⟨?_, trivial, ⟨?_, nofun⟩, nofun⟩, hrest⟩
    · exact h.calls t call hmem
    · exact fun hno => absurd hno (Nat.lt_irrefl 0)
  | @nests call c k run purpose cs rest hf hf' =>
    have hhead := h.head hf
    have hstands : (Stage.running k purpose run cs : Stage T E).Stands l call := hhead.stands
    refine hchange [_] [_, _] rest hf hf' fun hrest =>
      ⟨⟨?_, trivial, ⟨?_, nofun⟩, nofun⟩, ⟨?_, ?_, ⟨?_, ?_⟩, ?_⟩, hrest⟩
    · exact hhead.pending c List.mem_cons_self
    · exact fun _ => hhead.lone.pending c List.mem_cons_self
    · exact hhead.offered
    · exact hstands.mono hlasts
    · exact hhead.lone.outermost
    · exact fun c' hmem => hhead.lone.pending c' (List.mem_cons_of_mem _ hmem)
    · exact fun c' hmem => hhead.pending c' (List.mem_cons_of_mem _ hmem)
  | @goes call stage stage' rest hf hf' hstands hpending =>
    have hhead := h.head hf
    have hcalls : ∀ c ∈ stage'.pending, c.Offered ∧ ¬c.Awaits := by
      intro c hmem
      rcases hpending with hnone | ⟨run, hrun⟩
      · rw [hnone] at hmem
        cases hmem
      · exact hduring run c (hrun ▸ hmem)
    exact hchange [_] [_] rest hf hf' fun hrest => ⟨⟨hhead.offered, hstands.mono hlasts,
      ⟨hhead.lone.outermost, fun c hmem => (hcalls c hmem).2⟩, fun c hmem => (hcalls c hmem).1⟩,
      hrest⟩
  | @ends f rest hf hf' => exact hchange [f] [] rest hf hf' id

theorem Orderly.nested_effect (u : Nat) : ∀ f ∈ (l'.frames u).tail, f.Runs := by
  have hkeep : ∀ frames : List (Frame T E), (∀ f ∈ frames.tail, f.Runs) →
      l'.frames = Function.update l.frames t frames → ∀ f ∈ (l'.frames u).tail, f.Runs := by
    intro frames hframes hf'
    rw [hf']
    by_cases hu : u = t
    · rw [hu, Function.update_self]
      exact hframes
    · rw [Function.update_of_ne hu]
      exact h.nested u
  cases h.onFrames heffect with
  | same hf => exact hf ▸ h.nested u
  | begins hf hmem hf' => exact hkeep [_] (fun f hno => nomatch hno) hf'
  | @nests call c k run purpose cs rest hf hf' =>
    refine hkeep _ (fun f hmem => ?_) hf'
    rcases List.mem_cons.1 hmem with rfl | hrest
    · exact ⟨k, purpose, run, cs, rfl⟩
    · exact h.rest_runs hf f hrest
  | goes hf hf' => exact hkeep _ (h.rest_runs hf) hf'
  | ends hf hf' => exact hkeep _ (fun f hmem => h.rest_runs hf f (List.mem_of_mem_tail hmem)) hf'

theorem Orderly.resolving_effect (k : Nat) (hresolving : (l'.holders k).phase = .resolving) :
    l'.Has fun f => f.stage.Resolves k := by
  cases heffect.onHolder k with
  | same hphase =>
    exact heffect.resolves (h.resolving k (hphase.symm.trans hresolving)) hresolving
  | @changed call stage stage' rest hf hchanges hf' =>
    rcases hchanges.resolving hresolving with hold | hnew
    · exact heffect.resolves (h.resolving k hold) hresolving
    · refine ⟨t, ⟨call, stage'⟩, ?_, hnew⟩
      rw [hf', Function.update_self]
      exact List.mem_cons_self
  | installed call hk hholder =>
    exact absurd (hholder ▸ hresolving) (phase_replacement call).1

theorem Orderly.outcomes_effect (k : Nat) :
    (l'.holders k).outcome ≠ some (.error .interrupted) := by
  cases heffect.onHolder k with
  | same _ _ houtcome => exact houtcome ▸ h.outcomes k
  | changed hf hchanges =>
    have hstands := (h.head hf).stands
    have hold := h.outcomes k
    generalize l'.holders k = holder at hchanges
    cases hchanges with
    | publishes => exact fun hsame => hstands.2.2 (Option.some.inj hsame)
    | claims | handsBack | completes | retires => exact hold
  | installed call _ hholder =>
    rw [hholder]
    cases call <;> exact nofun

theorem Orderly.unmade_effect (k : Nat) (hunmade : l'.installed ≤ k) :
    (l'.holders k).outcome = none := by
  have hold := Nat.le_trans heffect.installed_le hunmade
  cases heffect.onHolder k with
  | same _ _ houtcome => exact houtcome.trans (h.unmade k hold)
  | changed hf hchanges =>
    exact absurd (hchanges.lasts (h.head hf).stands).1 (Nat.not_lt_of_le hold)
  | installed call _ hholder =>
    rw [hholder]
    cases call <;> rfl

theorem Orderly.log_effect :
    ∀ r ∈ l'.log, r.answer = .interrupted → ∃ leaves, r.call = .get ⟨true, leaves⟩ := by
  cases heffect with
  | goes halike => exact halike.log ▸ h.log
  | @answers l₀ call stage a rest halike hf hends =>
    obtain ⟨log, hreply, hlog⟩ := l₀.reply_eq t rest call a
    rw [hreply]
    intro r hmem hinterrupted
    rcases List.mem_append.1 hmem with hold | hnew
    · exact h.log r (halike.log ▸ hold) hinterrupted
    · obtain ⟨hcall, ha⟩ := hlog r hnew
      have hhead := h.head hf
      obtain ⟨k, rfl⟩ := h.leaving_of_ends hhead.stands (ha.symm.trans hinterrupted ▸ hends)
      have hinterruptible := hhead.stands.2 rfl
      rw [hcall]
      cases call with
      | get policy => exact ⟨policy.leaveOnRetire, by rw [← hinterruptible]; rfl⟩
      | resolve h policy | force h interruptible => exact hhead.offered.elim
      | _ => cases hinterruptible
  | _ => exact h.log

theorem Orderly.calls_effect (u : Nat) : ∀ c ∈ l'.calls u, c.Offered := by
  cases heffect with
  | goes halike => exact halike.calls ▸ h.calls u
  | @begins call calls hf hcalls =>
    show ∀ c ∈ Function.update l.calls t calls u, c.Offered
    by_cases hu : u = t
    · rw [hu, Function.update_self]
      exact fun c hmem => h.calls t c (hcalls ▸ List.mem_cons_of_mem _ hmem)
    · rw [Function.update_of_ne hu]
      exact h.calls u
  | @answers l₀ call stage a rest halike =>
    obtain ⟨log, hreply, -⟩ := l₀.reply_eq t rest call a
    rw [hreply]
    exact halike.calls ▸ h.calls u
  | _ => exact h.calls u

theorem Orderly.current_effect : l'.current < l'.installed := by
  cases heffect with
  | goes halike => exact halike.installed.symm ▸ halike.current.symm ▸ h.current
  | installs => exact Nat.lt_succ_self _
  | @answers l₀ call stage a rest halike =>
    obtain ⟨log, hreply, -⟩ := l₀.reply_eq t rest call a
    rw [hreply]
    exact halike.installed.symm ▸ halike.current.symm ▸ h.current
  | _ => exact h.current

/-- No turn disturbs the order of a reference. -/
theorem Orderly.effect
    (hduring : ∀ run, ∀ c ∈ (initializer run).during, c.Offered ∧ ¬c.Awaits) : Orderly l' where
  calls := h.calls_effect heffect
  frames := h.frames_effect heffect hduring
  nested := h.nested_effect heffect
  current := h.current_effect heffect
  unmade := h.unmade_effect heffect
  outcomes := h.outcomes_effect heffect
  resolving := h.resolving_effect heffect
  log := h.log_effect heffect

end Turns

end SharedCells.Lazy
