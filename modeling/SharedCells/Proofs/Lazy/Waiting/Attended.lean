import SharedCells.Proofs.Lazy.Waiting.Commitment
import SharedCells.Proofs.Lazy.Waiting.Roster

/-!
# Nobody waits in vain

A thread that waits for a holder is registered there, or the holder has released its call. Once
the holder has released the call and the thread has looked for that without success, a wake-up is
on its way (`Roster.Minds`). A list of waiters is only taken when all calls on it are released
(`Roster.Attended.drained`). These facts are kept by every turn that does not come between a claim
and the moment when it is kept or handed back (`Roster.Attended.stirs`).
-/

namespace SharedCells.Lazy

variable {T E : Type} {initializer : Nat → Routine T E} {g : Ledger} {ties : Ties}
  {R R' : Roster T E} {l l' : Lineage T E} {t u k : Nat} {call call' : Call}
  {stage stage' : Stage T E} {rest rest' : List (Frame T E)}

/-! ## Wake-ups -/

/-- A holder gives a call a reason to stop waiting for it. -/
def Lineage.Releases (l : Lineage T E) (h : Nat) (call : Call) : Prop :=
  (l.holders h).phase = .complete ∨
    call.policy.leaveOnRetire = true ∧ (l.holders h).retired = true

/-- A wake-up for a thread that waits for a holder is on its way. -/
inductive Roster.Notified (R : Roster T E) (h u : Nat) : Prop
  | permit : R.permit u = true → R.Notified h u
  | waking {v : Nat} {call : Call} {us : List Nat} {after : After T E} {rest : List (Frame T E)} :
    R.lineage.frames v = ⟨call, .waking us after⟩ :: rest → u ∈ us → R.Notified h u
  | draining {v : Nat} {call : Call} {after : After T E} {rest : List (Frame T E)} :
    R.lineage.frames v = ⟨call, .draining h after⟩ :: rest → u ∈ R.waiters h → R.Notified h u

/-! ## What a turn leaves -/

theorem Stirs.permit_of_ne (h : Stirs R t R') (hne : u ≠ t) (hpermit : R.permit u = true) :
    R'.permit u = true := by
  cases h with
  | stays => exact hpermit
  | rests _ _ _ hmono => exact hmono u hpermit
  | wakes _ _ _ hsame =>
    rw [hsame, Function.update_apply]
    split
    · rfl
    · exact hpermit
  | returns _ _ _ hsame => rw [hsame u hne, hpermit]
  | installs _ _ _ hsame | readies _ _ _ _ _ hsame | drains _ _ _ hsame | queues _ _ _ _ hsame
  | registers _ _ _ hsame | looks _ _ _ _ hsame | departs _ _ _ _ hsame
  | leaves _ _ _ hsame => rw [hsame, hpermit]

theorem Stirs.waking (h : Stirs R t R') {us : List Nat} {after : After T E}
    (hf : R.lineage.frames t = ⟨call, .waking us after⟩ :: rest) (hmem : u ∈ us) :
    R'.permit u = true ∨
      ∃ us', R'.lineage.frames t = ⟨call, .waking us' after⟩ :: rest ∧ u ∈ us' := by
  have hrests : ¬R.Rests t := by
    intro hrests
    have hnone : us = [] := hrests _ _ hf
    rw [hnone] at hmem
    cases hmem
  cases h with
  | stays => exact Or.inr ⟨us, hf, hmem⟩
  | rests hno | installs hno | readies hno => exact absurd hno hrests
  | wakes hf₀ hf' _ hpermit =>
    cases hf.symm.trans hf₀
    rcases List.mem_cons.1 hmem with rfl | hmem'
    · exact Or.inl (by rw [hpermit, Function.update_self])
    · exact Or.inr ⟨_, hf', hmem'⟩
  | drains hf₀ | queues hf₀ | registers hf₀ | returns hf₀ | leaves hf₀ =>
    cases hf.symm.trans hf₀
  | looks hf₀ hstage =>
    cases hf.symm.trans hf₀
    rcases hstage with ⟨hno, -⟩ | ⟨hno, -⟩ | ⟨hno, -⟩ <;> cases hno
  | departs hf₀ hwaits =>
    cases hf.symm.trans hf₀
    exact hwaits.elim

theorem Stirs.draining (h : Stirs R t R') {after : After T E}
    (hf : R.lineage.frames t = ⟨call, .draining k after⟩ :: rest) :
    R' = R ∨ R'.lineage.frames t = ⟨call, .waking (R.waiters k) after⟩ :: rest := by
  have hrests : ¬R.Rests t := fun hrests => hrests _ _ hf
  cases h with
  | stays => exact Or.inl rfl
  | rests hno | installs hno | readies hno => exact absurd hno hrests
  | drains hf₀ hf' =>
    cases hf.symm.trans hf₀
    exact Or.inr hf'
  | wakes hf₀ | queues hf₀ | registers hf₀ | returns hf₀ | leaves hf₀ =>
    cases hf.symm.trans hf₀
  | looks hf₀ hstage =>
    cases hf.symm.trans hf₀
    rcases hstage with ⟨hno, -⟩ | ⟨hno, -⟩ | ⟨hno, -⟩ <;> cases hno
  | departs hf₀ hwaits =>
    cases hf.symm.trans hf₀
    exact hwaits.elim

/-- A thread stays on a list of waiters, unless the list is taken. -/
theorem Stirs.waiters_of_ne (h : Stirs R t R') (hne : u ≠ t) (hk : k < R.lineage.installed)
    (hmem : u ∈ R.waiters k) : u ∈ R'.waiters k ∨
      ∃ call after rest, R.lineage.frames t = ⟨call, .draining k after⟩ :: rest ∧
        R'.lineage.frames t = ⟨call, .waking (R.waiters k) after⟩ :: rest := by
  cases h with
  | stays => exact Or.inl hmem
  | installs _ _ hwaiters =>
    rw [hwaiters, Function.update_of_ne (Nat.ne_of_lt hk)]
    exact Or.inl hmem
  | @drains _ call k' after rest hf hf' hwaiters =>
    by_cases hk' : k = k'
    · subst hk'
      exact Or.inr ⟨call, after, rest, hf, hf'⟩
    · rw [hwaiters, Function.update_of_ne hk']
      exact Or.inl hmem
  | registers _ _ hwaiters =>
    rw [hwaiters, Function.update_apply]
    split
    · rename_i hk'
      exact Or.inl (List.mem_append_left _ (hk' ▸ hmem))
    · exact Or.inl hmem
  | leaves _ _ hwaiters =>
    rw [hwaiters, Function.update_apply]
    split
    · rename_i hk'
      exact Or.inl ((List.mem_erase_of_ne hne).2 (hk' ▸ hmem))
    · exact Or.inl hmem
  | rests _ _ hsame | readies _ _ _ _ hsame | wakes _ _ hsame | queues _ _ _ hsame
  | looks _ _ _ hsame | returns _ _ hsame | departs _ _ _ hsame =>
    rw [hsame]
    exact Or.inl hmem

theorem Stirs.waiters_of_draining (h : Stirs R t R') {after : After T E}
    (hf' : R'.lineage.frames t = ⟨call, .draining k after⟩ :: rest) : R'.waiters = R.waiters := by
  have hrests : ¬R'.Rests t := fun hrests => hrests _ _ hf'
  cases h with
  | stays => rfl
  | rests _ hno | installs _ hno | leaves _ hno => exact absurd hno hrests
  | readies _ _ _ _ hsame | wakes _ _ hsame | queues _ _ _ hsame | looks _ _ _ hsame
  | returns _ _ hsame | departs _ _ _ hsame => exact hsame
  | drains _ hf₁ | registers _ hf₁ => cases hf'.symm.trans hf₁

/-- A wake-up stays on its way to a thread that does not move. -/
theorem Roster.Notified.stirs (h : R.Notified k u) (hstirs : Stirs R t R')
    (hframes : ∀ v, v ≠ t → R'.lineage.frames v = R.lineage.frames v) (hne : u ≠ t)
    (hk : k < R.lineage.installed) : R'.Notified k u := by
  cases h with
  | permit hpermit => exact .permit (hstirs.permit_of_ne hne hpermit)
  | @waking v call us after rest hf hmem =>
    by_cases hv : v = t
    · subst hv
      rcases hstirs.waking hf hmem with hpermit | ⟨us', hf', hmem'⟩
      · exact .permit hpermit
      · exact .waking hf' hmem'
    · exact .waking ((hframes v hv).trans hf) hmem
  | @draining v call after rest hf hmem =>
    rcases hstirs.waiters_of_ne hne hk hmem with hmem' | ⟨call', after', rest', -, hf'⟩
    · by_cases hv : v = t
      · subst hv
        rcases hstirs.draining hf with rfl | hf'
        · exact .draining hf hmem
        · exact .waking hf' hmem
      · exact .draining ((hframes v hv).trans hf) hmem'
    · exact .waking hf' hmem

/-! ## What a thread relies on -/

/-- Why the waiters of a holder are about to be woken. -/
def Lineage.Drains (l : Lineage T E) (h : Nat) : After T E → Prop
  | .giveUp _ => (l.holders h).phase = .unresolved
  | .resolve h' => h' = h ∧ (l.holders h).retired = true
  | .answer (.outcome _) => (l.holders h).phase = .complete
  | .answer _ => (l.holders h).retired = true ∧ (l.holders (h + 1)).phase = .cancelled

/-- A thread waits for a holder that will be complete, and it is registered there as long as there
is no reason to stop. -/
structure Roster.Watches (R : Roster T E) (u h : Nat) (call : Call) : Prop where
  committed : R.lineage.Committed h
  listed : u ∈ R.waiters h ∨ R.lineage.Releases h call

/-- What the innermost call of a thread may rely on. -/
def Roster.Minds (R : Roster T E) (u : Nat) (call : Call) : Stage T E → Prop
  | .registering h => R.lineage.Committed h
  | .watching h => R.Watches u h call
  | .watchingRetired h => R.Watches u h call ∧ ((R.lineage.holders h).phase = .complete →
      R.Notified h u ∨ call.policy.leaveOnRetire = true ∧ (R.lineage.holders h).retired = true)
  | .watchingStatus h | .parked h =>
    R.Watches u h call ∧ (R.lineage.Releases h call → R.Notified h u)
  | .draining h after => R.lineage.Drains h after
  | _ => True

/-- Every thread may rely on what it relies on, and only threads that wait are registered. -/
structure Roster.Attended (R : Roster T E) : Prop where
  minds : ∀ u call stage rest, R.lineage.frames u = ⟨call, stage⟩ :: rest → R.Minds u call stage
  listed : ∀ h u, u ∈ R.waiters h → ∃ call stage rest,
    R.lineage.frames u = ⟨call, stage⟩ :: rest ∧ stage.Waits h
  nodup : ∀ h, (R.waiters h).Nodup

theorem minds_of_idle (h : stage.Idle) (u : Nat) (call : Call) : R.Minds u call stage := by
  cases stage with
  | registering h' | watching h' | watchingRetired h' | watchingStatus h' | parked h'
  | draining h' after => exact h.elim
  | _ => trivial

/-! ## Releases -/

theorem Lineage.Releases.advances (h : l.Releases k call) (hinv : Inv initializer g l)
    (hadvances : Advances initializer (g.headTies l t) l t l') : l'.Releases k call :=
  h.imp ((hadvances.alters k).complete hinv)
    (And.imp_right ((hinv.later hadvances).retired k))

/-- Whoever gives a reason to stop waiting is about to wake the waiters. -/
theorem Lineage.Releases.news (h : l'.Releases k call)
    (hadvances : Advances initializer ties l t l') : l.Releases k call ∨
      ∃ call' after rest, l'.frames t = ⟨call', .draining k after⟩ :: rest := by
  rcases h with hcomplete | ⟨hleaves, hretired⟩
  · exact ((hadvances.alters k).completed hcomplete).imp_left Or.inl
  · exact ((hadvances.alters k).retired hretired).imp_left fun hold => Or.inr ⟨hleaves, hold⟩

theorem Lineage.Drains.advances {after : After T E} (h : l.Drains k after)
    (hinv : Inv initializer g l) (hadvances : Advances initializer (g.headTies l t) l t l')
    (hkept : ∀ h', after ≠ .giveUp h') : l'.Drains k after := by
  have hlater := hinv.later hadvances
  cases after with
  | giveUp h' => exact absurd rfl (hkept h')
  | resolve h' => exact ⟨h.1, hlater.retired k h.2⟩
  | answer a =>
    cases a with
    | outcome o => exact (hadvances.alters k).complete hinv h
    | _ => exact ⟨hlater.retired k h.1, hlater.cancelled (k + 1) h.2⟩

theorem Inv.waits (h : Inv initializer g l) (hf : l.frames u = ⟨call, stage⟩ :: rest)
    (hwaits : stage.Waits k) : call.Awaits ∧ (g.ties l u rest.length call).near k := by
  have hallowed := (h.head hf).allowed
  cases stage with
  | watching h' | watchingRetired h' | watchingStatus h' | parked h' =>
    have hk : h' = k := hwaits
    subst hk
    exact hallowed
  | leaving h' wake =>
    have hk : h' = k := hwaits
    subst hk
    exact ⟨hallowed.1, hallowed.2.1⟩
  | _ => exact hwaits.elim

/-- A list of waiters is taken only when the holder has released all calls on it. -/
theorem Roster.Attended.drained (h : R.Attended) (hinv : Inv initializer g R.lineage)
    {after : After T E} (hf₀ : R.lineage.frames t = ⟨call', .draining k after⟩ :: rest')
    (hf : R.lineage.frames u = ⟨call, stage⟩ :: rest) (hwaits : stage.Waits k) (hne : u ≠ t)
    (hcommitted : R.lineage.Committed k) : R.lineage.Releases k call := by
  obtain ⟨hawaits, -, -, hreplaced⟩ := hinv.waits hf hwaits
  have hrenews : call.Renews := (hinv.head hf).renews
  have hdrains : R.lineage.Drains k after := h.minds t call' _ rest' hf₀
  have hallowed : after.Allowed (g.ties R.lineage t rest'.length call') R.lineage call' :=
    (hinv.head hf₀).allowed
  cases after with
  -- Nobody waits for a holder whose claim was handed back.
  | giveUp h' => exact absurd hdrains (hcommitted.phase_ne hinv)
  | resolve h' =>
    obtain ⟨rfl, hretired⟩ := hdrains
    cases call with
    | get policy => exact Or.inr ⟨hrenews, hretired⟩
    | reset =>
      -- Both would have replaced the holder.
      obtain ⟨rfl, -, -, hreplaced'⟩ := hallowed
      exact absurd (hinv.traced.unique _ _ _ _ _ (hreplaced trivial).1 (hreplaced' trivial).1).1
        hne
    | _ => cases hawaits
  | answer a =>
    cases a with
    | outcome o => exact Or.inl hdrains
    | _ =>
      cases call with
      | get policy => exact Or.inr ⟨hrenews, hdrains.1⟩
      -- The one has replaced the holder by a fresh one, the other by a cancelled one.
      | reset => cases (hreplaced trivial).2.1 hdrains.2
      | _ => cases hawaits

/-! ## Threads that do not move -/

section Others

variable (hinv : Inv initializer g R.lineage)
  (hadvances : Advances initializer (g.headTies R.lineage t) R.lineage t R'.lineage)
  (hstirs : Stirs R t R') (hne : u ≠ t)

include hinv hadvances hstirs hne

theorem Roster.Watches.stirs (hwatches : R.Watches u k call) (h : R.Attended)
    (hf : R.lineage.frames u = ⟨call, stage⟩ :: rest) (hwaits : stage.Waits k) :
    R'.Watches u k call where
  committed := hwatches.committed.advances hinv hadvances
  listed := by
    rcases hwatches.listed with hmem | hreleases
    · have hk := (hinv.waits hf hwaits).2.1
      rcases hstirs.waiters_of_ne hne hk hmem with hmem' | ⟨call', after, rest', hf₀, -⟩
      · exact Or.inl hmem'
      · have hreleases := h.drained hinv hf₀ hf hwaits hne hwatches.committed
        exact Or.inr (hreleases.advances hinv hadvances)
    · exact Or.inr (hreleases.advances hinv hadvances)

/-- What a thread relies on goes on to hold while others move. -/
theorem Roster.Attended.minds_of_ne (h : R.Attended)
    (hf : R.lineage.frames u = ⟨call, stage⟩ :: rest)
    (hwhole : ∀ v, R.lineage.isTentative v = true → v = t) : R'.Minds u call stage := by
  have hminds := h.minds u call stage rest hf
  have hnotified : ∀ k, stage.Waits k → R.Notified k u → R'.Notified k u := fun k hwaits hold =>
    hold.stirs hstirs (fun v hv => hadvances.frames_of_ne hv) hne (hinv.waits hf hwaits).2.1
  -- Whoever gives a reason to stop waiting is about to wake a thread that is registered.
  have hlisted : ∀ k call' after rest', R'.lineage.frames t = ⟨call', .draining k after⟩ :: rest' →
      u ∈ R.waiters k → R'.Notified k u := fun k call' after rest' hf' hmem =>
    .draining hf' (hstirs.waiters_of_draining hf' ▸ hmem)
  -- Where a release means that a wake-up is on its way, it goes on to mean that.
  have hreleases : ∀ k, stage.Waits k → R.Watches u k call →
      (R.lineage.Releases k call → R.Notified k u) → R'.lineage.Releases k call →
        R'.Notified k u := by
    intro k hwaits hwatches hold hnew
    rcases hnew.news hadvances with hreleased | ⟨call', after, rest', hf'⟩
    · exact hnotified k hwaits (hold hreleased)
    · rcases hwatches.listed with hmem | hreleased
      · exact hlisted k call' after rest' hf' hmem
      · exact hnotified k hwaits (hold hreleased)
  cases stage with
  | registering k => exact Lineage.Committed.advances hminds hinv hadvances
  | watching k => exact hminds.stirs hinv hadvances hstirs hne h hf rfl
  | watchingRetired k =>
    obtain ⟨hwatches, hold⟩ := hminds
    have hkeep : R.Notified k u ∨ call.policy.leaveOnRetire = true ∧
        (R.lineage.holders k).retired = true → R'.Notified k u ∨
          call.policy.leaveOnRetire = true ∧ (R'.lineage.holders k).retired = true :=
      Or.imp (hnotified k rfl) (And.imp_right ((hinv.later hadvances).retired k))
    refine ⟨hwatches.stirs hinv hadvances hstirs hne h hf rfl, fun hcomplete => ?_⟩
    rcases (hadvances.alters k).completed hcomplete with hcomplete' | ⟨call', after, rest', hf'⟩
    · exact hkeep (hold hcomplete')
    · rcases hwatches.listed with hmem | hcomplete' | hretired
      · exact Or.inl (hlisted k call' after rest' hf' hmem)
      · exact hkeep (hold hcomplete')
      · exact hkeep (Or.inr hretired)
  | watchingStatus k | parked k =>
    obtain ⟨hwatches, hold⟩ := hminds
    exact ⟨hwatches.stirs hinv hadvances hstirs hne h hf rfl, hreleases k rfl hwatches hold⟩
  | draining k after =>
    refine Lineage.Drains.advances hminds hinv hadvances ?_
    rintro h' rfl
    exact hne (hwhole u (Lineage.isTentative_eq hf))
  | _ => trivial

end Others

/-! ## The thread that moves -/

/-- A wake-up stays on its way to a thread that only looks. -/
theorem Roster.Notified.looks (h : R.Notified k u) (hf : R.lineage.frames t = ⟨call, stage⟩ :: rest)
    (hwaits : stage.Waits k) {frames : List (Frame T E)}
    (hlineage : R'.lineage = R.lineage.put t frames) (hwaiters : R'.waiters = R.waiters)
    (hpermit : R'.permit = R.permit) : R'.Notified k u := by
  -- Whoever wakes others does not wait.
  have hother : ∀ v f rest', R.lineage.frames v = f :: rest' → ¬f.stage.Waits k →
      R'.lineage.frames v = f :: rest' := by
    intro v f rest' hf' hno
    have hv : v ≠ t := by
      rintro rfl
      cases hf'.symm.trans hf
      exact hno hwaits
    rw [hlineage]
    exact (Function.update_of_ne hv ..).trans hf'
  cases h with
  | permit hyes => exact .permit (hpermit ▸ hyes)
  | waking hf' hmem => exact .waking (hother _ _ _ hf' id) hmem
  | draining hf' hmem => exact .draining (hother _ _ _ hf' id) (hwaiters ▸ hmem)

/-- A holder that is being resolved will be complete, unless a claim may yet be handed back. -/
theorem Manned.committed (hmanned : Manned l) (hinv : Inv initializer g l)
    (hresolving : (l.holders k).phase = .resolving)
    (hwhole : ∀ u, l.isTentative u = false) : l.Committed k := by
  obtain ⟨u, f, hmem, hclaims⟩ := hmanned.claimed k hresolving
  refine Or.inr ⟨u, f, hmem, ?_⟩
  rcases Stage.computes_of_claimed hclaims with hcomputes | htentative
  · exact hcomputes
  · exfalso
    rcases hinv.innermost_or_runs hmem with ⟨rest, hframes⟩ | ⟨k', purpose, run, calls, hrunning⟩
    · rw [← Lineage.isTentative_eq hframes, hwhole u] at htentative
      cases htentative
    · rw [hrunning] at htentative
      cases htentative

theorem Inv.drains (h : Inv initializer g l) (hlater : Later l l') {after : After T E}
    (hf : l.frames t = ⟨call, stage⟩ :: rest)
    (hafter : stage = .handingBack k ∧ after = .giveUp k ∧ (l'.holders k).phase = .unresolved ∨
      (∃ o, stage = .completing k o ∧ after = .answer (.outcome o) ∧
          (l'.holders k).phase = .complete) ∨
        stage = .retiring k ∧ after = System.afterRetiring call k ∧
          (l'.holders k).retired = true) : l'.Drains k after := by
  rcases hafter with ⟨rfl, rfl, hphase⟩ | ⟨o, rfl, rfl, hphase⟩ | ⟨rfl, rfl, hretired⟩
  · exact hphase
  · exact hphase
  · obtain ⟨hreplaces, -, -, hreplaced⟩ := (h.head hf).allowed
    cases call with
    | reset => exact ⟨rfl, hretired⟩
    | cancel => exact ⟨hretired, hlater.cancelled _ ((hreplaced trivial).2.2 rfl)⟩
    | _ => cases hreplaces

theorem Roster.Attended.minds_mover (h : R.Attended) (hinv : Inv initializer g R.lineage)
    (hadvances : Advances initializer (g.headTies R.lineage t) R.lineage t R'.lineage)
    (hstirs : Stirs R t R') (hmanned : Manned R.lineage)
    (hwhole : ∀ v, R.lineage.isTentative v = true → v = t)
    (hf' : R'.lineage.frames t = ⟨call, stage⟩ :: rest) : R'.Minds t call stage := by
  cases hstirs with
  | stays => exact h.minds t call stage rest hf'
  | rests _ hrests | installs _ hrests => exact minds_of_idle (hrests _ _ hf') t call
  | leaves _ hrests => exact minds_of_idle (hrests _ _ hf') t call
  | readies _ hf hafter hf₁ =>
    cases hf'.symm.trans hf₁
    exact hinv.drains (hinv.later hadvances) hf hafter
  | drains _ hf₁ | wakes _ hf₁ | departs _ _ hf₁ =>
    cases hf'.symm.trans hf₁
    trivial
  | queues hf hresolving hlineage =>
    -- Nobody is tentative: the thread that moves stands elsewhere.
    have hcommitted := hmanned.committed hinv hresolving fun v => by
      refine Bool.eq_false_iff.2 fun htentative => ?_
      obtain rfl := hwhole v htentative
      rw [Lineage.isTentative_eq hf] at htentative
      cases htentative
    rw [hlineage, Lineage.frames_put_self] at hf'
    cases hf'
    exact hcommitted.advances hinv hadvances
  | registers hf hf₁ hwaiters =>
    cases hf'.symm.trans hf₁
    refine ⟨Lineage.Committed.advances (h.minds t _ _ _ hf) hinv hadvances, Or.inl ?_⟩
    rw [hwaiters, Function.update_self]
    exact List.mem_append_right _ (List.mem_singleton_self t)
  | returns hf hf₁ hwaiters =>
    cases hf'.symm.trans hf₁
    obtain ⟨hwatches, -⟩ := h.minds t _ _ _ hf
    refine ⟨hwatches.committed.advances hinv hadvances, ?_⟩
    rw [hwaiters]
    exact hwatches.listed.imp_right fun hreleases => hreleases.advances hinv hadvances
  | @looks _ call' k stage₀ stage₁ rest' hf hstage hlineage hwaiters hpermit =>
    have hholders : R'.lineage.holders = R.lineage.holders :=
      (congrArg Lineage.holders hlineage).trans rfl
    have hminds := h.minds t call' stage₀ rest' hf
    have hwatches : R.Watches t k call' → R'.Watches t k call' := fun hold =>
      ⟨hold.committed.advances hinv hadvances, by
        rw [hwaiters, Lineage.Releases, hholders]
        exact hold.listed⟩
    cases (Lineage.frames_of_put hlineage).symm.trans hf'
    rcases hstage with ⟨rfl, rfl, hresolving⟩ | ⟨rfl, rfl, hstays⟩ | ⟨rfl, rfl⟩
    · refine ⟨hwatches hminds, fun hno => ?_⟩
      rw [hholders, hresolving] at hno
      cases hno
    · refine ⟨hwatches hminds.1, fun hreleases => ?_⟩
      rw [Lineage.Releases, hholders] at hreleases
      have hcomplete := hreleases.resolve_right hstays
      have hnotified := (hminds.2 hcomplete).resolve_right hstays
      exact hnotified.looks hf rfl hlineage hwaiters hpermit
    · refine ⟨hwatches hminds.1, fun hreleases => ?_⟩
      rw [Lineage.Releases, hholders] at hreleases
      exact (hminds.2 hreleases).looks hf rfl hlineage hwaiters hpermit

/-! ## Lists of waiters -/

theorem Stirs.waiters_of_mem (h : Stirs R t R') (hmem : u ∈ R'.waiters k) :
    u ∈ R.waiters k ∨
      u = t ∧ ∃ call rest, R.lineage.frames t = ⟨call, .registering k⟩ :: rest := by
  cases h with
  | stays => exact Or.inl hmem
  | installs _ _ hwaiters | drains _ _ hwaiters =>
    rw [hwaiters, Function.update_apply] at hmem
    split at hmem
    · cases hmem
    · exact Or.inl hmem
  | registers hf _ hwaiters =>
    rw [hwaiters, Function.update_apply] at hmem
    split at hmem
    · rename_i hk
      subst hk
      rcases List.mem_append.1 hmem with hold | hnew
      · exact Or.inl hold
      · exact Or.inr ⟨List.mem_singleton.1 hnew, _, _, hf⟩
    · exact Or.inl hmem
  | leaves _ _ hwaiters =>
    rw [hwaiters, Function.update_apply] at hmem
    split at hmem
    · rename_i hk
      exact Or.inl (hk ▸ List.mem_of_mem_erase hmem)
    · exact Or.inl hmem
  | rests _ _ hsame | readies _ _ _ _ hsame | wakes _ _ hsame | queues _ _ _ hsame
  | looks _ _ _ hsame | returns _ _ hsame | departs _ _ _ hsame =>
    rw [hsame] at hmem
    exact Or.inl hmem

namespace Roster.Attended

theorem unlisted (h : R.Attended) (hf : R.lineage.frames t = ⟨call, stage⟩ :: rest)
    (hwaits : ¬stage.Waits k) : t ∉ R.waiters k := by
  intro hmem
  obtain ⟨call', stage', rest', hf', hwaits'⟩ := h.listed k t hmem
  cases hf.symm.trans hf'
  exact hwaits hwaits'

theorem unlisted_of_rests (h : R.Attended) (hrests : R.Rests t) : t ∉ R.waiters k := by
  intro hmem
  obtain ⟨call, stage, rest, hf, hwaits⟩ := h.listed k t hmem
  exact Stage.Idle.not_waits (hrests _ _ hf) k hwaits

theorem listed_mover (h : R.Attended) (hstirs : Stirs R t R') (hmem : t ∈ R'.waiters k) :
    ∃ call stage rest, R'.lineage.frames t = ⟨call, stage⟩ :: rest ∧ stage.Waits k := by
  have hold := hstirs.waiters_of_mem hmem
  have hidle : ∀ {call stage rest}, R.lineage.frames t = ⟨call, stage⟩ :: rest →
      ¬stage.Waits k → (∀ k', stage ≠ .registering k') → False := by
    intro call stage rest hf hwaits hno
    rcases hold with hmem' | ⟨-, call', rest', hf'⟩
    · exact h.unlisted hf hwaits hmem'
    · cases hf.symm.trans hf'
      exact hno k rfl
  have hrests : ¬R.Rests t := by
    intro hrests
    rcases hold with hmem' | ⟨-, call', rest', hf'⟩
    · exact h.unlisted_of_rests hrests hmem'
    · exact hrests _ _ hf'
  cases hstirs with
  | stays =>
    exact h.listed k t hmem
  | rests hno | installs hno | readies hno => exact absurd hno hrests
  | drains hf | wakes hf | queues hf => exact (hidle hf id fun k' hno => by cases hno).elim
  | @registers _ call k' rest hf hf' hwaiters =>
    by_cases hk : k = k'
    · subst hk
      exact ⟨call, _, rest, hf', rfl⟩
    · rw [hwaiters, Function.update_of_ne hk] at hmem
      exact absurd hmem (h.unlisted hf id)
  | @looks _ call k' stage stage' rest hf hstage hlineage hwaiters =>
    rw [hwaiters] at hmem
    obtain ⟨call₀, stage₀, rest₀, hf₀, hwaits⟩ := h.listed k t hmem
    cases hf.symm.trans hf₀
    refine ⟨call, stage', rest, Lineage.frames_of_put hlineage, ?_⟩
    rcases hstage with ⟨rfl, rfl, -⟩ | ⟨rfl, rfl, -⟩ | ⟨rfl, rfl⟩ <;> exact hwaits
  | @returns _ call k' rest hf hf' hwaiters =>
    rw [hwaiters] at hmem
    obtain ⟨call₀, stage₀, rest₀, hf₀, hwaits⟩ := h.listed k t hmem
    cases hf.symm.trans hf₀
    exact ⟨call, _, rest, hf', hwaits⟩
  | @departs _ call k' stage wake rest hf hwaits hf' hwaiters =>
    rw [hwaiters] at hmem
    obtain ⟨call₀, stage₀, rest₀, hf₀, hwaits₀⟩ := h.listed k t hmem
    cases hf.symm.trans hf₀
    exact ⟨call, _, rest, hf', hwaits.eq hwaits₀⟩
  | @leaves _ call k' wake rest hf hrests' hwaiters =>
    by_cases hk : k = k'
    · subst hk
      rw [hwaiters, Function.update_self] at hmem
      exact absurd hmem (h.nodup k).not_mem_erase
    · rw [hwaiters, Function.update_of_ne hk] at hmem
      exact absurd hmem (h.unlisted hf fun hwaits => hk hwaits.symm)

theorem nodup_stirs (h : R.Attended) (hstirs : Stirs R t R') (k : Nat) :
    (R'.waiters k).Nodup := by
  cases hstirs with
  | stays => exact h.nodup k
  | installs _ _ hwaiters | drains _ _ hwaiters =>
    rw [hwaiters, Function.update_apply]
    split
    · exact List.nodup_nil
    · exact h.nodup k
  | @registers _ call k' rest hf _ hwaiters =>
    rw [hwaiters, Function.update_apply]
    split
    · refine List.nodup_append.2 ⟨h.nodup k', List.nodup_singleton t, ?_⟩
      rintro a ha b hb rfl
      rw [List.mem_singleton.1 hb] at ha
      exact h.unlisted hf id ha
    · exact h.nodup k
  | leaves _ _ hwaiters =>
    rw [hwaiters, Function.update_apply]
    split
    · exact (h.nodup _).erase t
    · exact h.nodup k
  | rests _ _ hsame | readies _ _ _ _ hsame | wakes _ _ hsame | queues _ _ _ hsame
  | looks _ _ _ hsame | returns _ _ hsame | departs _ _ _ hsame =>
    rw [hsame]
    exact h.nodup k

/-- Every turn of a thread keeps what the threads rely on, unless another thread may yet hand a
claim back. -/
theorem stirs (h : R.Attended) (hinv : Inv initializer g R.lineage) (hmanned : Manned R.lineage)
    (hadvances : Advances initializer (g.headTies R.lineage t) R.lineage t R'.lineage)
    (hstirs : Stirs R t R')
    (hwhole : ∀ v, R.lineage.isTentative v = true → v = t) : R'.Attended where
  minds u call stage rest hf' := by
    by_cases hu : u = t
    · subst hu
      exact h.minds_mover hinv hadvances hstirs hmanned hwhole hf'
    · have hf := (hadvances.frames_of_ne hu).symm.trans hf'
      exact h.minds_of_ne hinv hadvances hstirs hu hf hwhole
  listed k u hmem := by
    by_cases hu : u = t
    · subst hu
      exact h.listed_mover hstirs hmem
    · rcases hstirs.waiters_of_mem hmem with hmem' | ⟨hno, -⟩
      · obtain ⟨call, stage, rest, hf, hwaits⟩ := h.listed k u hmem'
        exact ⟨call, stage, rest, (hadvances.frames_of_ne hu).trans hf, hwaits⟩
      · exact absurd hno hu
  nodup := h.nodup_stirs hstirs

end Roster.Attended

end SharedCells.Lazy
