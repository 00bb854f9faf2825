import SharedCells.Proofs.Lazy.Generations.Spared

/-!
# Who computes an outcome

A call that claims a holder may hand the claim back as long as it is tentative. From then on it
computes the outcome, and it keeps the claim until the holder is complete: a holder is `Committed`
once somebody computes its outcome, and it stays so (`Lineage.Committed.advances`). A holder that is
being resolved is claimed by some call (`Manned.claimed`).

If the initializers make no calls that wait, a thread makes such a call only when it makes no other
one (`Manned.lone`), so nobody waits for itself.
-/

namespace SharedCells.Lazy

variable {T E : Type} {initializer : Nat → Routine T E} {g : Ledger} {l l' : Lineage T E}
  {ties : Ties} {t k : Nat} {call : Call} {stage : Stage T E} {old new rest : List (Frame T E)}

/-! ## Stages -/

/-- A call holds the claim of a holder for good. -/
def Stage.Computes (h : Nat) : Stage T E → Prop
  | arming h' | running h' _ _ _ | publishing h' _ | completing h' _ => h' = h
  | _ => False

/-- Whether a call holds a claim that it may hand back, or has just handed one back. -/
def Stage.isTentative : Stage T E → Bool
  | rechecking _ | handingBack _ | draining _ (.giveUp _) => true
  | _ => false

def Stage.pending : Stage T E → List Call
  | running _ _ _ calls => calls
  | _ => []

theorem Stage.Computes.claimed (h : stage.Computes k) : stage.claimed = some k := by
  cases stage with
  | arming h' | running h' purpose run calls | publishing h' o | completing h' o =>
    exact congrArg some h
  | _ => exact h.elim

theorem Stage.Computes.not_tentative (h : stage.Computes k) : stage.isTentative = false := by
  cases stage with
  | arming h' | running h' purpose run calls | publishing h' o | completing h' o => rfl
  | _ => exact h.elim

/-- Whoever holds a claim computes the outcome, or may hand the claim back. -/
theorem Stage.computes_of_claimed (h : stage.claimed = some k) :
    stage.Computes k ∨ stage.isTentative = true := by
  cases stage with
  | rechecking h' | handingBack h' => exact Or.inr rfl
  | arming h' | running h' purpose run calls | publishing h' o | completing h' o =>
    exact Or.inl (Option.some.inj h)
  | _ => cases h

theorem Stage.pending_of_claimed (h : stage.claimed = none) : stage.pending = [] := by
  cases stage with
  | running h' purpose run calls => cases h
  | _ => rfl

/-! ## Calls that have begun -/

/-- Whether the innermost call of a thread is tentative. -/
def Lineage.isTentative (l : Lineage T E) (t : Nat) : Bool :=
  match l.frames t with
  | [] => false
  | f :: _ => f.stage.isTentative

theorem Lineage.isTentative_eq {f : Frame T E} (hf : l.frames t = f :: rest) :
    l.isTentative t = f.stage.isTentative := by
  rw [isTentative, hf]

/-- Some call that has begun is as told. -/
def Lineage.Has (l : Lineage T E) (P : Frame T E → Prop) : Prop := ∃ u, ∃ f ∈ l.frames u, P f

theorem Lineage.Has.change {P : Frame T E → Prop} (h : l.Has P) (old new : List (Frame T E))
    (hf : l.frames t = old ++ rest) (hf' : l'.frames = Function.update l.frames t (new ++ rest))
    (hnew : ∀ f ∈ old, P f → ∃ f' ∈ new, P f') : l'.Has P := by
  obtain ⟨u, f, hmem, hP⟩ := h
  by_cases hu : u = t
  · subst hu
    have hframes : l'.frames u = new ++ rest := by rw [hf', Function.update_self]
    rcases List.mem_append.1 (hf ▸ hmem) with hold | hrest
    · obtain ⟨f', hmem', hP'⟩ := hnew f hold hP
      exact ⟨u, f', hframes ▸ List.mem_append_left _ hmem', hP'⟩
    · exact ⟨u, f, hframes ▸ List.mem_append_right _ hrest, hP⟩
  · exact ⟨u, f, by rw [hf', Function.update_of_ne hu]; exact hmem, hP⟩

theorem Lineage.Has.goesOn {P : Frame T E → Prop} (h : l.Has P) {f f' : Frame T E}
    (hf : l.frames t = f :: rest) (hf' : l'.frames = Function.update l.frames t (f' :: rest))
    (hP : P f → P f') : l'.Has P := by
  refine h.change [f] [f'] hf hf' fun f'' hmem hP' => ⟨f', List.mem_singleton_self _, ?_⟩
  exact hP (List.mem_singleton.1 hmem ▸ hP')

theorem Lineage.Has.reply {P : Frame T E → Prop} (h : l.Has P) {f : Frame T E}
    (hf : l.frames t = f :: rest) (hP : ¬P f) (a : Answer T E) :
    (l.reply t rest f.call a).Has P := by
  obtain ⟨log, hreply, -⟩ := l.reply_eq t rest f.call a
  have hframes : (l.reply t rest f.call a).frames = Function.update l.frames t ([] ++ rest) := by
    rw [hreply]
    rfl
  exact h.change [f] [] hf hframes fun f' hmem hP' =>
    absurd (List.mem_singleton.1 hmem ▸ hP') hP

/-- A call that has begun is the innermost one of its thread, or it runs the initializer. -/
theorem Inv.innermost_or_runs (h : Inv initializer g l) {f : Frame T E} (hmem : f ∈ l.frames t) :
    (∃ rest, l.frames t = f :: rest) ∨ f.Runs := by
  cases hframes : l.frames t with
  | nil =>
    rw [hframes] at hmem
    cases hmem
  | cons f' rest =>
    rw [hframes] at hmem
    rcases List.mem_cons.1 hmem with rfl | hrest
    · exact Or.inl ⟨rest, rfl⟩
    · exact Or.inr (h.nested hframes f hrest)

/-! ## Holders -/

/-- What an advance of a thread does to the phase of a holder, and to the mark that it was
replaced. -/
inductive Alters (l l' : Lineage T E) (t k : Nat) : Prop
  | keeps : (l'.holders k).phase = (l.holders k).phase →
    (l'.holders k).retired = (l.holders k).retired → Alters l l' t k
  | installs (call : Call) : k = l.installed → l'.holders k = System.replacement call →
    Alters l l' t k
  | claims {call : Call} {stage : Stage T E} {rest : List (Frame T E)} :
    (l.holders k).phase = .unresolved → (l'.holders k).phase = .resolving →
      (l'.holders k).retired = (l.holders k).retired →
        l'.frames t = ⟨call, stage⟩ :: rest → stage.claimed = some k → Alters l l' t k
  /-- The thread is about to wake the waiters. -/
  | readies {call : Call} {stage : Stage T E} {after : After T E} {rest : List (Frame T E)} :
    l.frames t = ⟨call, stage⟩ :: rest → l'.frames t = ⟨call, .draining k after⟩ :: rest →
      (stage = .handingBack k ∧ (l'.holders k).phase = .unresolved ∧
          (l'.holders k).retired = (l.holders k).retired ∨
        (∃ o, stage = .completing k o) ∧ (l'.holders k).phase = .complete ∧
            (l'.holders k).retired = (l.holders k).retired ∨
          stage = .retiring k ∧ (l'.holders k).phase = (l.holders k).phase ∧
            (l'.holders k).retired = true) → Alters l l' t k

theorem alters_of_ne {k' : Nat} {holder : Holder T E}
    (hset : l'.holders = Function.update l.holders k' holder) (hk : k ≠ k') :
    Alters l l' t k := by
  have hsame : l'.holders k = l.holders k := by rw [hset, Function.update_of_ne hk]
  exact .keeps (congrArg Holder.phase hsame) (congrArg Holder.retired hsame)

theorem alters_of_eq {k' : Nat} {holder : Holder T E}
    (hset : l'.holders = Function.update l.holders k' holder)
    (hphase : holder.phase = (l.holders k').phase)
    (hretired : holder.retired = (l.holders k').retired) : Alters l l' t k := by
  by_cases hk : k = k'
  · subst hk
    have hholder : l'.holders k = holder := by rw [hset, Function.update_self]
    exact .keeps (hholder ▸ hphase) (hholder ▸ hretired)
  · exact alters_of_ne hset hk

theorem Advances.alters (hadvances : Advances initializer ties l t l') (k : Nat) :
    Alters l l' t k := by
  cases hadvances with
  | @replies call stage a rest hf =>
    obtain ⟨log, hreply, -⟩ := l.reply_eq t rest call a
    rw [hreply]
    exact .keeps rfl rfl
  | @claims call k' stage' rest hf hphase hstage =>
    by_cases hk : k = k'
    · subst hk
      have hholder : ((l.set k { l.holders k with phase := .resolving }).put t
          (⟨call, stage'⟩ :: rest)).holders k = { l.holders k with phase := .resolving } :=
        l.holders_set_self ..
      refine .claims hphase (by rw [hholder]) (by rw [hholder])
        (Lineage.frames_put_self ..) ?_
      rcases hstage with rfl | ⟨rfl, -⟩ <;> rfl
    · exact alters_of_ne rfl hk
  | @handsBack call k' rest hf =>
    by_cases hk : k = k'
    · subst hk
      have hholder : ((l.set k { l.holders k with phase := .unresolved }).put t
          (⟨call, .draining k (.giveUp k)⟩ :: rest)).holders k =
            { l.holders k with phase := .unresolved } := l.holders_set_self ..
      exact .readies hf (Lineage.frames_put_self ..)
        (Or.inl ⟨rfl, by rw [hholder], by rw [hholder]⟩)
    · exact alters_of_ne rfl hk
  | enters hf => exact alters_of_eq rfl rfl rfl
  | publishes hf => exact alters_of_eq rfl rfl rfl
  | @completes call k' o rest hf =>
    by_cases hk : k = k'
    · subst hk
      have hholder : ((l.set k { l.holders k with phase := .complete }).put t
          (⟨call, .draining k (.answer (.outcome o))⟩ :: rest)).holders k =
            { l.holders k with phase := .complete } := l.holders_set_self ..
      exact .readies hf (Lineage.frames_put_self ..) (Or.inr (Or.inl
        ⟨⟨o, rfl⟩, by rw [hholder], by rw [hholder]⟩))
    · exact alters_of_ne rfl hk
  | @replaces call rest hreplaces hf =>
    by_cases hk : k = l.installed
    · subst hk
      exact .installs call rfl (l.holders_install_self _)
    · exact alters_of_ne rfl hk
  | @retires call k' rest hf =>
    by_cases hk : k = k'
    · subst hk
      have hholder : ((l.set k { l.holders k with retired := true }).put t
          (⟨call, .draining k (System.afterRetiring call k)⟩ :: rest)).holders k =
            { l.holders k with retired := true } := l.holders_set_self ..
      exact .readies hf (Lineage.frames_put_self ..) (Or.inr (Or.inr
        ⟨rfl, by rw [hholder], by rw [hholder]⟩))
    · exact alters_of_ne rfl hk
  | _ => exact .keeps rfl rfl

theorem phase_replacement (call : Call) :
    (System.replacement call : Holder T E).phase ≠ .resolving ∧
      (System.replacement call : Holder T E).phase ≠ .complete := by
  constructor
  · cases call <;> exact Phase.noConfusion
  · cases call <;> exact Phase.noConfusion

theorem retired_replacement (call : Call) :
    (System.replacement call : Holder T E).retired = false := by
  cases call <;> rfl

theorem Alters.complete (h : Alters l l' t k) (hinv : Inv initializer g l)
    (hcomplete : (l.holders k).phase = .complete) : (l'.holders k).phase = .complete := by
  cases h with
  | keeps hphase hretired => exact hphase.trans hcomplete
  | installs call hk hholder =>
    rw [hinv.sound.unmade k (Nat.le_of_eq hk.symm)] at hcomplete
    cases hcomplete
  | claims hphase => cases hphase.symm.trans hcomplete
  | readies hf hf' hchange =>
    rcases hchange with ⟨rfl, -, -⟩ | ⟨-, hphase, -⟩ | ⟨-, hphase, -⟩
    · cases (hinv.claimed hf rfl).2.symm.trans hcomplete
    · exact hphase
    · exact hphase.trans hcomplete

/-- Whoever makes a holder complete is about to wake its waiters. -/
theorem Alters.completed (h : Alters l l' t k) (hcomplete : (l'.holders k).phase = .complete) :
    (l.holders k).phase = .complete ∨
      ∃ call after rest, l'.frames t = ⟨call, .draining k after⟩ :: rest := by
  cases h with
  | keeps hphase hretired => exact Or.inl (hphase.symm.trans hcomplete)
  | installs call hk hholder =>
    exact absurd (hholder ▸ hcomplete) (phase_replacement call).2
  | claims hphase hphase' => cases hphase'.symm.trans hcomplete
  | readies hf hf' hchange => exact Or.inr ⟨_, _, _, hf'⟩

/-- Whoever retires a holder is about to wake its waiters. -/
theorem Alters.retired (h : Alters l l' t k) (hretired : (l'.holders k).retired = true) :
    (l.holders k).retired = true ∨
      ∃ call after rest, l'.frames t = ⟨call, .draining k after⟩ :: rest := by
  cases h with
  | keeps hphase hsame => exact Or.inl (hsame.symm.trans hretired)
  | installs call hk hholder =>
    rw [hholder, retired_replacement call] at hretired
    cases hretired
  | claims hphase hphase' hsame => exact Or.inl (hsame.symm.trans hretired)
  | readies hf hf' hchange => exact Or.inr ⟨_, _, _, hf'⟩

/-! ## Claims -/

/-- Whether a call holds the claim of a holder. -/
def Frame.Claims (k : Nat) (f : Frame T E) : Prop := f.stage.claimed = some k

theorem Lineage.Has.claims (h : l.Has (Frame.Claims k))
    (hadvances : Advances initializer ties l t l')
    (hresolving : (l'.holders k).phase = .resolving) : l'.Has (Frame.Claims k) := by
  cases hadvances with
  | stays => exact h
  | begins hf hcalls => exact h.change [] [_] (by simpa using hf) rfl (by simp)
  | nests hf => exact h.change [_] [_, _] hf rfl (by simp [Frame.Claims, Stage.claimed])
  | passes hf hclaimed => exact h.goesOn hf rfl hclaimed.trans
  | @replies call stage a rest hf hclaimed =>
    refine h.reply hf (fun hno => ?_) a
    cases hclaimed.symm.trans hno
  | claims hf hphase hstage => exact h.goesOn hf rfl fun hno => by cases hno
  | @handsBack call k' rest hf =>
    refine h.goesOn hf rfl fun hclaims => ?_
    obtain rfl := Option.some.inj hclaims
    have hphase := congrArg Holder.phase
      (l.holders_set_self k' { l.holders k' with phase := .unresolved })
    cases hphase.symm.trans hresolving
  | enters hf => exact h.goesOn hf rfl id
  | concludes hf => exact h.goesOn hf rfl id
  | publishes hf => exact h.goesOn hf rfl id
  | @completes call k' o rest hf =>
    refine h.goesOn hf rfl fun hclaims => ?_
    obtain rfl := Option.some.inj hclaims
    have hphase := congrArg Holder.phase
      (l.holders_set_self k' { l.holders k' with phase := .complete })
    cases hphase.symm.trans hresolving
  | replaces hreplaces hf => exact h.goesOn hf rfl fun hno => by cases hno
  | counts hf => exact h.goesOn hf rfl fun hno => by cases hno
  | retires hf => exact h.goesOn hf rfl fun hno => by cases hno

/-- Whoever computes an outcome goes on until the holder is complete. -/
theorem Lineage.Has.computes (h : l.Has fun f => f.stage.Computes k)
    (hadvances : Advances initializer ties l t l') :
    (l'.holders k).phase = .complete ∨ l'.Has fun f => f.stage.Computes k := by
  cases hadvances with
  | stays => exact Or.inr h
  | begins hf hcalls => exact Or.inr (h.change [] [_] (by simpa using hf) rfl (by simp))
  | nests hf => exact Or.inr (h.change [_] [_, _] hf rfl (by simp [Stage.Computes]))
  | passes hf hclaimed hallowed huncounted harming hholds =>
    -- Only a claim that may be handed back is passed on to another stage like this.
    refine Or.inr (h.goesOn hf rfl fun hcomputes => ?_)
    have hcomputes' : Stage.Computes k _ := hcomputes
    obtain ⟨k', rfl, -⟩ := hholds (by rw [hcomputes'.claimed]; exact Option.some_ne_none _)
    exact hcomputes.elim
  | @replies call stage a rest hf hclaimed =>
    refine Or.inr (h.reply hf (fun hno => ?_) a)
    cases hclaimed.symm.trans (Stage.Computes.claimed hno)
  | claims hf hphase hstage => exact Or.inr (h.goesOn hf rfl False.elim)
  | handsBack hf => exact Or.inr (h.goesOn hf rfl False.elim)
  | enters hf => exact Or.inr (h.goesOn hf rfl id)
  | concludes hf => exact Or.inr (h.goesOn hf rfl id)
  | publishes hf => exact Or.inr (h.goesOn hf rfl id)
  | @completes call k' o rest hf =>
    by_cases hk : k' = k
    · subst hk
      exact Or.inl (congrArg Holder.phase (l.holders_set_self ..))
    · exact Or.inr (h.goesOn hf rfl fun hcomputes => absurd hcomputes hk)
  | replaces hreplaces hf => exact Or.inr (h.goesOn hf rfl False.elim)
  | counts hf => exact Or.inr (h.goesOn hf rfl False.elim)
  | retires hf => exact Or.inr (h.goesOn hf rfl False.elim)

/-- A holder is complete, or some call will make it so. -/
def Lineage.Committed (l : Lineage T E) (k : Nat) : Prop :=
  (l.holders k).phase = .complete ∨ l.Has fun f => f.stage.Computes k

/-- A holder that somebody computes goes on to be computed until it is complete. -/
theorem Lineage.Committed.advances (h : l.Committed k) (hinv : Inv initializer g l)
    (hadvances : Advances initializer ties l t l') : l'.Committed k := by
  rcases h with hcomplete | hcomputes
  · exact Or.inl ((hadvances.alters k).complete hinv hcomplete)
  · exact hcomputes.computes hadvances

theorem Lineage.Committed.phase_ne (h : l.Committed k) (hinv : Inv initializer g l) :
    (l.holders k).phase ≠ .unresolved := by
  rcases h with hcomplete | ⟨u, f, hmem, hcomputes⟩
  · rw [hcomplete]
    intro hno
    cases hno
  · obtain ⟨d, hsits⟩ := (hinv.seated.frames u).exists_of_mem hmem
    have howner := hsits.owns k hcomputes.claimed
    rw [(hinv.sound.holders k).owner (by rw [howner]; exact Option.some_ne_none _)]
    intro hno
    cases hno

/-! ## Who makes calls that wait -/

/-- A call that waits is not nested in another one, and makes no other one that waits. -/
structure Frame.Lone (d : Nat) (f : Frame T E) : Prop where
  outermost : 0 < d → ¬f.call.Awaits
  pending : ∀ c ∈ f.stage.pending, ¬c.Awaits

/-- A holder that is being resolved is claimed by a call, and no call that waits is nested in
another one. -/
structure Manned (l : Lineage T E) : Prop where
  claimed : ∀ k, (l.holders k).phase = .resolving → l.Has (Frame.Claims k)
  lone : ∀ u, Stacked Frame.Lone (l.frames u)

theorem Manned.head (h : Manned l) {f : Frame T E} (hf : l.frames t = f :: rest) :
    f.Lone rest.length :=
  (hf ▸ h.lone t : Stacked _ (f :: rest)).1

theorem Manned.claimed_advances (h : Manned l) (hadvances : Advances initializer ties l t l')
    (hresolving : (l'.holders k).phase = .resolving) : l'.Has (Frame.Claims k) := by
  cases hadvances.alters k with
  | keeps hphase hretired =>
    exact (h.claimed k (hphase.symm.trans hresolving)).claims hadvances hresolving
  | installs call hk hholder =>
    exact absurd (hholder ▸ hresolving) (phase_replacement call).1
  | @claims call stage rest hphase hphase' hretired hf' hclaimed =>
    exact ⟨t, ⟨call, stage⟩, hf' ▸ List.mem_cons_self, hclaimed⟩
  | readies hf hf' hchange =>
    rcases hchange with ⟨-, hphase, -⟩ | ⟨-, hphase, -⟩ | ⟨-, hphase, -⟩
    · cases hphase.symm.trans hresolving
    · cases hphase.symm.trans hresolving
    · exact (h.claimed k (hphase.symm.trans hresolving)).claims hadvances hresolving

theorem Manned.lone_change (h : Manned l) (old new : List (Frame T E))
    (hf : l.frames t = old ++ rest) (hf' : l'.frames = Function.update l.frames t (new ++ rest))
    (hnew : Stacked Frame.Lone rest → Stacked Frame.Lone (new ++ rest)) (u : Nat) :
    Stacked Frame.Lone (l'.frames u) :=
  Stacked.change (P := fun _ => Frame.Lone) (Q := fun _ => Frame.Lone) h.lone hf hf'
    (fun _ _ _ _ => id) hnew u

theorem Manned.lone_goesOn (h : Manned l) {stage' : Stage T E}
    (hf : l.frames t = ⟨call, stage⟩ :: rest)
    (hf' : l'.frames = Function.update l.frames t (⟨call, stage'⟩ :: rest))
    (hpending : ∀ c ∈ stage'.pending, ¬c.Awaits) (u : Nat) :
    Stacked Frame.Lone (l'.frames u) :=
  h.lone_change [⟨call, stage⟩] [⟨call, stage'⟩] hf hf'
    (fun hrest => ⟨⟨(h.head hf).outermost, hpending⟩, hrest⟩) u

theorem Manned.lone_advances (h : Manned l)
    (hduring : ∀ run, ∀ c ∈ (initializer run).during, ¬c.Awaits)
    (hadvances : Advances initializer ties l t l') (u : Nat) :
    Stacked Frame.Lone (l'.frames u) := by
  have hnone : ∀ stage' : Stage T E, stage'.pending = [] → ∀ c ∈ stage'.pending, ¬c.Awaits := by
    intro stage' hpending c hmem
    rw [hpending] at hmem
    cases hmem
  cases hadvances with
  | stays => exact h.lone u
  | @begins call calls hf hcalls =>
    refine h.lone_change [] [⟨call, .start⟩] (by simpa using hf) rfl
      (fun hrest => ⟨⟨?_, ?_⟩, hrest⟩) u
    · exact fun hno => absurd hno (Nat.lt_irrefl 0)
    · exact hnone .start rfl
  | @nests call c k run purpose cs rest hf =>
    have hpending := (h.head hf).pending
    refine h.lone_change [_] [_, _] hf rfl (fun hrest => ⟨⟨fun _ => ?_, ?_⟩, ⟨?_, ?_⟩, hrest⟩) u
    · exact hpending c List.mem_cons_self
    · exact hnone .start rfl
    · exact (h.head hf).outermost
    · exact fun c' hmem => hpending c' (List.mem_cons_of_mem _ hmem)
  | @passes call stage stage' rest hf hclaimed hallowed huncounted harming hholds =>
    refine h.lone_goesOn hf rfl (hnone stage' ?_) u
    cases hstage : stage.claimed with
    | none => exact Stage.pending_of_claimed (hclaimed.trans hstage)
    | some k =>
      obtain ⟨k', -, rfl | rfl⟩ := hholds (by rw [hstage]; exact Option.some_ne_none _)
      · rfl
      · rfl
  | @replies call stage a rest hf hclaimed =>
    obtain ⟨log, hreply, -⟩ := l.reply_eq t rest call a
    refine h.lone_change [_] [] hf ?_ id u
    rw [hreply]
    rfl
  | @claims call k stage' rest hf hphase hstage =>
    refine h.lone_goesOn hf rfl (hnone stage' ?_) u
    rcases hstage with rfl | ⟨rfl, -⟩
    · rfl
    · rfl
  | handsBack hf => exact h.lone_goesOn hf rfl (hnone _ rfl) u
  | enters hf =>
    refine h.lone_goesOn hf rfl ?_ u
    exact hduring _
  | concludes hf => exact h.lone_goesOn hf rfl (hnone _ rfl) u
  | publishes hf => exact h.lone_goesOn hf rfl (hnone _ rfl) u
  | completes hf => exact h.lone_goesOn hf rfl (hnone _ rfl) u
  | replaces hreplaces hf => exact h.lone_goesOn hf rfl (hnone _ rfl) u
  | counts hf => exact h.lone_goesOn hf rfl (hnone _ rfl) u
  | retires hf => exact h.lone_goesOn hf rfl (hnone _ rfl) u

theorem Manned.advances (h : Manned l)
    (hduring : ∀ run, ∀ c ∈ (initializer run).during, ¬c.Awaits)
    (hadvances : Advances initializer ties l t l') : Manned l' :=
  ⟨fun _ => h.claimed_advances hadvances, h.lone_advances hduring hadvances⟩

end SharedCells.Lazy
