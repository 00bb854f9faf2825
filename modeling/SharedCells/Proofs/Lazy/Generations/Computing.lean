import SharedCells.Proofs.Lazy.Generations.Kept

/-!
# Calls that compute a generation

A call claims a holder, takes its initializer, publishes the outcome and gives the claim back. The
ledger tells who holds the claim; nobody else changes what of the holder its owner relies on. The
calls that the initializer makes begin above the call that runs it.
-/

namespace SharedCells.Lazy

variable {T E : Type} {initializer : Nat → Routine T E} {g g' : Ledger} {l l' : Lineage T E}
  {t d : Nat} {call : Call} {stage stage' : Stage T E} {rest : List (Frame T E)}

/-! ## Changes of a holder -/

theorem Later.of_set {k : Nat} {holder : Holder T E}
    (hset : l'.holders = Function.update l.holders k holder)
    (hinstalled : l'.installed = l.installed) (hruns : ∃ more, l'.runs = l.runs ++ more)
    (houtcome : ∀ o, (l.holders k).outcome = some o → holder.outcome = some o)
    (hcancelled : holder.phase = .cancelled ↔ (l.holders k).phase = .cancelled)
    (hretired : (l.holders k).retired = true → holder.retired = true) : Later l l' where
  installed := Nat.le_of_eq hinstalled.symm
  runs := hruns
  outcome := holders_of_update (P := fun h new =>
    ∀ o, (l.holders h).outcome = some o → new.outcome = some o) hset houtcome fun _ _ _ => id
  cancelled := holders_of_update (P := fun h new =>
    (l.holders h).phase = .cancelled → new.phase = .cancelled) hset hcancelled.2 fun _ _ => id
  live := fun h _ => holders_of_update (P := fun h new =>
    new.phase = .cancelled → (l.holders h).phase = .cancelled) hset hcancelled.1 (fun _ _ => id) h
  retired := holders_of_update (P := fun h new =>
    (l.holders h).retired = true → new.retired = true) hset hretired fun _ _ => id

/-- A holder changes, and perhaps who holds its claim and what was run. -/
theorem Sound.set (h : Sound initializer g l) {k : Nat} {holder : Holder T E}
    {owner : Nat → Option (Nat × Nat)} (hk : k < l.installed)
    (hset : l'.holders = Function.update l.holders k holder)
    (hinstalled : l'.installed = l.installed) (hcurrent : l'.current = l.current)
    (hruns : l'.runs.Nodup)
    (hcancelled : holder.phase = .cancelled → (l.holders k).phase = .cancelled)
    (hretired : holder.retired = (l.holders k).retired ∨ k ≠ l.current)
    (hother : ∀ h', h' ≠ k → (l.holders h').Sound initializer l'.runs (owner h') h')
    (hsound : holder.Sound initializer l'.runs (owner k) k) :
    Sound initializer { g with owner } l' where
  holders := holders_of_update (P := fun h' new => new.Sound initializer l'.runs (owner h') h')
    hset hsound hother
  runs := hruns
  installed := by rw [hinstalled, hcurrent, h.installed]
  live := by
    rw [hcurrent]
    exact holders_of_update (P := fun h' new => h' < l.current → new.phase ≠ .cancelled) hset
      (fun hlt hphase => h.live k hlt (hcancelled hphase)) fun h' _ => h.live h'
  retired := by
    rw [hcurrent]
    refine holders_of_update (P := fun h' new => h' = l.current → new.retired = false) hset
      (fun hk' => ?_) (fun h' _ hh' => hh' ▸ h.retired) l.current rfl
    rcases hretired with hsame | hne
    · rw [hsame, hk']
      exact h.retired
    · exact absurd hk' hne
  unmade := by
    rw [hinstalled]
    exact holders_of_update (P := fun h' new => l.installed ≤ h' → new = .fresh) hset
      (fun hle => absurd hk (Nat.not_lt_of_le hle)) fun h' _ => h.unmade h'

/-- The innermost call of a thread changes a holder, and perhaps takes or gives its claim. -/
theorem Inv.sets (h : Inv initializer g l) (owner : Nat → Option (Nat × Nat))
    (hf : l.frames t = ⟨call, stage⟩ :: rest) {k : Nat} {holder : Holder T E}
    (hk : k < l.installed)
    (houtcome : ∀ o, (l.holders k).outcome = some o → holder.outcome = some o)
    (hcancelled : holder.phase = .cancelled ↔ (l.holders k).phase = .cancelled)
    (hretired : (l.holders k).retired = true → holder.retired = true)
    (hcurrent : holder.retired = (l.holders k).retired ∨ k ≠ l.current)
    (hother : ∀ h', h' ≠ k → owner h' = g.owner h')
    (howner : ∀ p, p ≠ (t, rest.length) → g.owner k = some p → owner k = some p ∧
      holder.outcome = (l.holders k).outcome ∧ holder.armed = (l.holders k).armed)
    (hsound : holder.Sound initializer l.runs (owner k) k) (huncounted : stage.uncounted = none)
    (hallowed : ∀ ties : Ties, (g.ties l t rest.length call).Le ties →
      stage'.Allowed initializer ties ((l.set k holder).put t (⟨call, stage'⟩ :: rest)) call)
    (howns : ∀ h, stage'.claimed = some h → owner h = some (t, rest.length)) :
    Inv initializer { g with owner } ((l.set k holder).put t (⟨call, stage'⟩ :: rest)) := by
  have hlater : Later l ((l.set k holder).put t (⟨call, stage'⟩ :: rest)) :=
    .of_set rfl rfl ⟨[], (List.append_nil _).symm⟩ houtcome hcancelled hretired
  refine h.goesOn hlater hf rfl rfl rfl rfl rfl (fun p hp h' hsome => ?_)
    (h.sound.set hk rfl rfl rfl h.sound.runs hcancelled.1 hcurrent
      (fun h' hh => hother h' hh ▸ h.sound.holders h') hsound)
    (fun _ hno => absurd huncounted hno) (hallowed _) howns
  show owner h' = some p ∧ ((l.set k holder).holders h').outcome = _ ∧
    ((l.set k holder).holders h').armed = _
  by_cases hh : h' = k
  · subst hh
    rw [Lineage.holders_set_self]
    exact howner p hp hsome
  · rw [Lineage.holders_set_of_ne _ _ hh, hother h' hh]
    exact ⟨hsome, rfl, rfl⟩

theorem Inv.claimed (h : Inv initializer g l) (hf : l.frames t = ⟨call, stage⟩ :: rest) {k : Nat}
    (hclaimed : stage.claimed = some k) :
    g.owner k = some (t, rest.length) ∧ (l.holders k).phase = .resolving := by
  have howner := (h.head hf).owns k hclaimed
  refine ⟨howner, (h.sound.holders k).owner ?_⟩
  rw [howner]
  exact Option.some_ne_none _

/-- Only one call holds the claim of a holder. -/
theorem Inv.claimed_only (h : Inv initializer g l) (hf : l.frames t = ⟨call, stage⟩ :: rest)
    {k : Nat} (hclaimed : stage.claimed = some k) {p : Nat × Nat} (hp : p ≠ (t, rest.length)) :
    g.owner k ≠ some p := by
  intro hsome
  have howner := (h.claimed hf hclaimed).1
  exact hp (Option.some.inj (hsome.symm.trans howner))

theorem Inv.claims (h : Inv initializer g l) {k : Nat}
    (hf : l.frames t = ⟨call, .claiming k⟩ :: rest) (hphase : (l.holders k).phase = .unresolved)
    (hstage : stage' = .rechecking k ∨ stage' = .arming k ∧ call = .reset) :
    Inv initializer { g with owner := Function.update g.owner k (some (t, rest.length)) }
      ((l.set k { l.holders k with phase := .resolving }).put t (⟨call, stage'⟩ :: rest)) := by
  obtain ⟨hawaits, hnear⟩ := (h.head hf).allowed
  have hsound := h.sound.holders k
  obtain ⟨hnone, harmed⟩ := hsound.unresolved hphase
  -- Nobody holds the claim of a holder that is unresolved.
  have hfree : ∀ p, g.owner k ≠ some p := by
    intro p hsome
    have hresolving := hsound.owner (by rw [hsome]; exact Option.some_ne_none _)
    exact nomatch hphase.symm.trans hresolving
  have hholder : ((l.set k { l.holders k with phase := .resolving }).put t
      (⟨call, stage'⟩ :: rest)).holders k = { l.holders k with phase := .resolving } :=
    l.holders_set_self ..
  refine h.sets (Function.update g.owner k (some (t, rest.length))) hf hnear.1
    (fun o => id) ?_ id (Or.inl rfl) (fun h' hh => Function.update_of_ne hh ..)
    (fun p _ hsome => absurd hsome (hfree p)) ?_ rfl (fun ties hle => ?_) fun h' hclaimed => ?_
  · simp [hphase]
  · exact ⟨fun _ => rfl, fun hno => (nomatch hno), fun hno => (nomatch hno), hsound.armed,
      hsound.outcome⟩
  · rcases hstage with rfl | ⟨rfl, -⟩ <;>
      exact ⟨hawaits, hle.near k hnear, by rw [hholder]; exact hnone, by rw [hholder]; exact harmed⟩
  · have hsame : k = h' := by
      rcases hstage with rfl | ⟨rfl, -⟩ <;> exact Option.some.inj hclaimed
    subst hsame
    exact Function.update_self ..

/-- A call gives the claim of a holder back, which is unresolved then, or complete. -/
theorem Inv.yields (h : Inv initializer g l) {k : Nat} {phase : Phase}
    (hf : l.frames t = ⟨call, stage⟩ :: rest) (hclaimed : stage.claimed = some k)
    (hk : k < l.installed) (huncounted : stage.uncounted = none) (hphase : phase ≠ .cancelled)
    (hunresolved : phase = .unresolved →
      (l.holders k).outcome = none ∧ (l.holders k).armed = true)
    (hfree : stage'.claimed = none)
    (hallowed : ∀ ties : Ties, (g.ties l t rest.length call).Le ties → stage'.Allowed initializer
      ties ((l.set k { l.holders k with phase }).put t (⟨call, stage'⟩ :: rest)) call) :
    Inv initializer { g with owner := Function.update g.owner k none }
      ((l.set k { l.holders k with phase }).put t (⟨call, stage'⟩ :: rest)) := by
  have hresolving := (h.claimed hf hclaimed).2
  have hsound := h.sound.holders k
  have hholder : ({ l.holders k with phase } : Holder T E).Sound initializer l.runs
      (Function.update g.owner k none k) k :=
    ⟨fun hno => absurd (Function.update_self ..) hno, hunresolved, fun hno => absurd hno hphase,
      hsound.armed, hsound.outcome⟩
  refine h.sets (Function.update g.owner k none) hf hk (fun o => id) ?_ id (Or.inl rfl)
    (fun h' hh => Function.update_of_ne hh ..)
    (fun p hp hsome => absurd hsome (h.claimed_only hf hclaimed hp)) hholder huncounted hallowed
    fun h' hno => nomatch hfree.symm.trans hno
  simp [hphase, hresolving]

theorem Inv.handsBack (h : Inv initializer g l) {k : Nat}
    (hf : l.frames t = ⟨call, .handingBack k⟩ :: rest) :
    Inv initializer { g with owner := Function.update g.owner k none }
      ((l.set k { l.holders k with phase := .unresolved }).put t
        (⟨call, .draining k (.giveUp k)⟩ :: rest)) := by
  obtain ⟨hawaits, hnear, hnone, harmed⟩ := (h.head hf).allowed
  exact h.yields hf rfl hnear.1 rfl (fun hno => nomatch hno) (fun _ => ⟨hnone, harmed⟩) rfl
    fun ties hle => ⟨hawaits, hle.near k hnear⟩

theorem Inv.completes (h : Inv initializer g l) {k : Nat} {o : Outcome T E}
    (hf : l.frames t = ⟨call, .completing k o⟩ :: rest) :
    Inv initializer { g with owner := Function.update g.owner k none }
      ((l.set k { l.holders k with phase := .complete }).put t
        (⟨call, .draining k (.answer (.outcome o))⟩ :: rest)) := by
  obtain ⟨hawaits, hnear, hout⟩ := (h.head hf).allowed
  refine h.yields hf rfl hnear.1 rfl (fun hno => nomatch hno) (fun hno => nomatch hno) rfl
    fun ties hle => ⟨hawaits, k, hle.near k hnear, ?_⟩
  exact (congrArg Holder.outcome (l.holders_set_self ..)).trans hout

theorem Inv.publishes (h : Inv initializer g l) {k : Nat} {o : Outcome T E}
    (hf : l.frames t = ⟨call, .publishing k o⟩ :: rest) :
    Inv initializer g ((l.set k { l.holders k with outcome := some o }).put t
      (⟨call, .completing k o⟩ :: rest)) := by
  obtain ⟨hawaits, hnear, hnone, harmed, hcomputed⟩ := (h.head hf).allowed
  obtain ⟨howner, hphase⟩ := h.claimed hf rfl
  -- The holder is being resolved, and its initializer was run for the outcome that is published.
  have hholder : ({ l.holders k with outcome := some o } : Holder T E).Sound initializer l.runs
      (g.owner k) k := by
    refine ⟨fun _ => hphase, fun hno => ?_, fun hno => ?_, fun hno => ?_, fun o' ho' => ?_⟩
    · exact nomatch hphase.symm.trans hno
    · exact nomatch hphase.symm.trans hno
    · exact nomatch harmed.symm.trans hno
    · cases ho'
      exact hcomputed
  refine h.sets g.owner hf hnear.1 (fun o' ho' => ?_) Iff.rfl id (Or.inl rfl) (fun _ _ => rfl)
    (fun p hp hsome => absurd hsome (h.claimed_only hf rfl hp)) hholder rfl
    (fun ties hle => ⟨hawaits, hle.near k hnear, ?_⟩) fun h' hclaimed => ?_
  · exact nomatch hnone.symm.trans ho'
  · exact congrArg Holder.outcome (l.holders_set_self ..)
  · cases hclaimed
    exact howner

theorem Inv.retires (h : Inv initializer g l) {k : Nat}
    (hf : l.frames t = ⟨call, .retiring k⟩ :: rest) :
    Inv initializer g ((l.set k { l.holders k with retired := true }).put t
      (⟨call, .draining k (System.afterRetiring call k)⟩ :: rest)) := by
  obtain ⟨hreplaces, hnear⟩ := (h.head hf).allowed
  have hsound := h.sound.holders k
  -- The current holder is not retired, since a call retires what it has replaced.
  have hreplaced : k ≠ l.current :=
    Nat.ne_of_lt (h.traced.target t rest.length k (hnear.2.2 hreplaces).1).2
  refine h.sets g.owner hf hnear.1 (fun o => id) Iff.rfl (fun _ => rfl) (Or.inr hreplaced)
    (fun _ _ => rfl) (fun p hp hsome => ⟨hsome, rfl, rfl⟩)
    ⟨hsound.owner, hsound.unresolved, hsound.cancelled, hsound.armed, hsound.outcome⟩ rfl
    (fun ties hle => ?_) fun h' hclaimed => nomatch hclaimed
  cases call with
  | reset => exact ⟨rfl, hle.near k hnear⟩
  | cancel => exact ⟨rfl, k, hle.near k hnear⟩
  | _ => cases hreplaces

/-- The innermost call of a thread comes to another stage. -/
theorem Inv.passes (h : Inv initializer g l) (hf : l.frames t = ⟨call, stage⟩ :: rest)
    (hclaimed : stage'.claimed = stage.claimed)
    (hallowed : stage'.Allowed initializer (g.ties l t rest.length call) l call)
    (huncounted : call = .reset → stage.uncounted ≠ none → stage'.uncounted = stage.uncounted) :
    Inv initializer g (l.put t (⟨call, stage'⟩ :: rest)) := by
  have hlater : Later l (l.put t (⟨call, stage'⟩ :: rest)) := .same rfl rfl rfl
  exact h.goesOn hlater hf rfl rfl rfl rfl rfl (fun p _ h' hsome => ⟨hsome, rfl, rfl⟩)
    (h.sound.same rfl rfl rfl rfl rfl) huncounted (fun _ => hallowed)
    fun h' hsome => (h.head hf).owns h' (hclaimed ▸ hsome)

theorem Inv.concludes (h : Inv initializer g l) {k run : Nat}
    (hf : l.frames t = ⟨call, .running k .publish run []⟩ :: rest) :
    Inv initializer g (l.allocate.put t
      (⟨call, .publishing k ((initializer run).ending.outcome l.allocations)⟩ :: rest)) := by
  obtain ⟨hawaits, hnear, hnone, harmed, -, ⟨n, hn, hrun⟩, -⟩ := (h.head hf).allowed
  subst hrun
  have hlater : Later l (l.allocate.put t
      (⟨call, .publishing k ((initializer (n + 1)).ending.outcome l.allocations)⟩ :: rest)) :=
    .same rfl rfl rfl
  exact h.goesOn hlater hf rfl rfl rfl rfl rfl (fun p _ h' hsome => ⟨hsome, rfl, rfl⟩)
    (h.sound.same rfl rfl rfl rfl rfl) (fun _ hno => absurd rfl hno)
    (fun _ => ⟨hawaits, hnear, hnone, harmed, n, l.allocations, hn, Ending.leaves_outcome ..⟩)
    fun h' hsome => (h.head hf).owns h' hsome

/-- The initializer is taken for one run. -/
theorem Sound.enter (h : Sound initializer g l) {k : Nat} (harmed : (l.holders k).armed = true)
    (hnone : (l.holders k).outcome = none) (hphase : (l.holders k).phase = .resolving) :
    Sound initializer g (l.enter k) := by
  have hk : k < l.installed := by
    refine Nat.lt_of_not_le fun hle => ?_
    rw [h.unmade k hle] at hphase
    cases hphase
  -- An initializer that is still there was not run yet.
  have hunrun : k ∉ l.runs := (h.holders k).armed harmed
  refine h.set hk rfl rfl rfl ?_ (fun hno => nomatch hphase.symm.trans hno) (Or.inl rfl)
    (fun h' hh => ?_) ?_
  · refine List.Nodup.append h.runs (List.nodup_singleton k) fun h' hmem hsame => ?_
    rw [List.mem_singleton.1 hsame] at hmem
    exact hunrun hmem
  · have hsound := h.holders h'
    refine ⟨hsound.owner, hsound.unresolved, hsound.cancelled, fun hyes hmem => ?_,
      fun o ho => (hsound.outcome o ho).mono⟩
    rcases List.mem_append.1 hmem with hmem | hmem
    · exact hsound.armed hyes hmem
    · exact hh (List.mem_singleton.1 hmem)
  · exact ⟨fun _ => hphase, fun hno => (nomatch hphase.symm.trans hno), fun _ => hnone,
      fun hno => (nomatch hno), fun o ho => nomatch hnone.symm.trans ho⟩

theorem Inv.enters (h : Inv initializer g l)
    (hduring : ∀ run, ∀ c ∈ (initializer run).during, c.Renews) {k : Nat}
    (hf : l.frames t = ⟨call, .arming k⟩ :: rest) :
    Inv initializer g ((l.enter k).put t (⟨call, .running k .publish (l.runs.length + 1)
      (initializer (l.runs.length + 1)).during⟩ :: rest)) := by
  obtain ⟨hawaits, hnear, hnone, harmed⟩ := (h.head hf).allowed
  have hphase := (h.claimed hf rfl).2
  have hlater : Later l ((l.enter k).put t (⟨call, .running k .publish (l.runs.length + 1)
      (initializer (l.runs.length + 1)).during⟩ :: rest)) :=
    .of_set rfl rfl ⟨[k], rfl⟩ (fun _ => id) Iff.rfl id
  have hholder : (l.enter k).holders k = { l.holders k with armed := false } :=
    l.holders_set_self ..
  refine h.goesOn hlater hf rfl rfl rfl rfl rfl (fun p hp h' hsome => ?_) ?_
    (fun _ hno => absurd rfl hno)
    (fun hle => ⟨hawaits, hle.near k hnear, ?_, ?_, rfl, ⟨l.runs.length, ?_, rfl⟩, hduring _⟩)
    fun h' hsome => (h.head hf).owns h' hsome
  · have hne : h' ≠ k := by
      rintro rfl
      exact h.claimed_only hf rfl hp hsome
    show g.owner h' = some p ∧ ((l.enter k).holders h').outcome = _ ∧
      ((l.enter k).holders h').armed = _
    rw [Lineage.enter, Lineage.holders_set_of_ne _ _ hne]
    exact ⟨hsome, rfl, rfl⟩
  · exact (h.sound.enter harmed hnone hphase).same rfl rfl rfl rfl rfl
  · exact (congrArg Holder.outcome hholder).trans hnone
  · exact congrArg Holder.armed hholder
  · exact List.getElem?_concat_length ..

/-! ## Calls that begin -/

/-- A call begins above the calls that a thread makes. -/
theorem Inv.pushes (h : Inv initializer g l) (old new : List (Frame T E)) {c : Call}
    (hf : l.frames t = old ++ rest)
    (hf' : l'.frames = Function.update l.frames t (⟨c, .start⟩ :: new ++ rest))
    (hcalls : ∀ u, ∀ c ∈ l'.calls u, c.Renews) (hrenews : c.Renews)
    (hsame : l' = { l with frames := l'.frames, calls := l'.calls })
    (hlength : new.length = old.length) (hplace : ∀ f ∈ old, f.stage.uncounted = none)
    (hnested : ∀ f ∈ new ++ rest, f.Runs)
    (hnew : Stacked (fun d f => f.Sits initializer g l' t d) rest →
      Stacked (fun d f => f.Sits initializer g l' t d) (new ++ rest)) :
    Inv initializer g l' := by
  have hlater : Later l l' := by
    rw [hsame]
    exact .same rfl rfl rfl
  have hholders : l'.holders = l.holders := by rw [hsame]
  have hcurrent : l'.current = l.current := by rw [hsame]
  have hinstalled := h.sound.current_lt
  -- Nothing is aimed at from above the calls that there are.
  have hfree : g.target t (new ++ rest).length = none := by
    rw [List.length_append, hlength, ← List.length_append, ← hf]
    cases htarget : g.target t (l.frames t).length with
    | none => rfl
    | some h' => exact absurd (h.traced.target _ _ _ htarget).1 (Nat.lt_irrefl _)
  have hseated : Seated initializer g l' := by
    refine h.seated.change old (⟨c, .start⟩ :: new) hf hf' hlater h.bound
      (fun u d _ => ⟨rfl, rfl, fun h' hsome => ?_, fun _ _ => id⟩) hcalls hnested
      fun hrest => ⟨⟨hrenews, fun _ => hfree, hfree, fun h' hno => nomatch hno⟩, hnew hrest⟩
    rw [hholders]
    exact ⟨hsome, rfl, rfl⟩
  have htraced : Traced g l' := by
    refine h.traced.keep hlater hinstalled hcurrent rfl rfl fun u => ?_
    rw [hf']
    by_cases hu : u = t
    · rw [hu, Function.update_self, hf]
      simp [hlength]
    · exact Nat.le_of_eq (congrArg List.length (Function.update_of_ne hu _ _).symm)
  have hcounted : Counted g l' := by
    refine h.counted.keep hlater hinstalled hcurrent (by rw [hsame]) rfl
      fun h' _ u f hmem hreset hsome => ?_
    rw [hf']
    by_cases hu : u = t
    · subst hu
      rw [Function.update_self]
      rw [hf] at hmem
      rcases List.mem_append.1 hmem with hold | hrest
      · exact nomatch (hplace f hold).symm.trans hsome
      · exact ⟨f, List.mem_append_right _ hrest, hreset, hsome⟩
    · rw [Function.update_of_ne hu]
      exact ⟨f, hmem, hreset, hsome⟩
  exact ⟨hseated, h.sound.same hholders (by rw [hsame]) hcurrent (by rw [hsame]) rfl, htraced,
    hcounted, h.told.keep hlater (by rw [hsame]) hcurrent rfl rfl⟩

theorem Inv.begins (h : Inv initializer g l) {calls : List Call} (hf : l.frames t = [])
    (hcalls : l.calls t = call :: calls) :
    Inv initializer g
      { l.put t [⟨call, .start⟩] with calls := Function.update l.calls t calls } := by
  have hrenews : ∀ c ∈ call :: calls, c.Renews := hcalls ▸ h.seated.calls t
  refine h.pushes [] [] hf rfl (fun u c hc => ?_) (hrenews call List.mem_cons_self) rfl rfl
    (fun f hno => nomatch hno) (fun f hno => nomatch hno) id
  by_cases hu : u = t
  · subst hu
    have hmem : c ∈ calls := by simpa using hc
    exact hrenews c (List.mem_cons_of_mem _ hmem)
  · have hmem : c ∈ l.calls u := by simpa [hu] using hc
    exact h.seated.calls u c hmem

theorem Inv.nests (h : Inv initializer g l) {c : Call} {k run : Nat} {purpose : Purpose}
    {cs : List Call} (hf : l.frames t = ⟨call, .running k purpose run (c :: cs)⟩ :: rest) :
    Inv initializer g
      (l.put t (⟨c, .start⟩ :: ⟨call, .running k purpose run cs⟩ :: rest)) := by
  have hsits := h.head hf
  obtain ⟨hawaits, hnear, hnone, harmed, hpurpose, hrun, hcalls⟩ := hsits.allowed
  refine h.pushes [⟨call, .running k purpose run (c :: cs)⟩] [⟨call, .running k purpose run cs⟩]
    hf rfl h.seated.calls (hcalls c List.mem_cons_self) rfl rfl (fun f hmem => ?_)
    (fun f hmem => ?_) fun hrest => ⟨⟨hsits.renews, hsits.free, ?_, hsits.owns⟩, hrest⟩
  · rw [List.mem_singleton.1 hmem]
    rfl
  · rcases List.mem_cons.1 hmem with rfl | hmem
    · exact ⟨k, purpose, run, cs, rfl⟩
    · exact h.nested hf f hmem
  · exact ⟨hawaits, hnear, hnone, harmed, hpurpose, hrun,
      fun c' hc' => hcalls c' (List.mem_cons_of_mem _ hc')⟩

end SharedCells.Lazy
