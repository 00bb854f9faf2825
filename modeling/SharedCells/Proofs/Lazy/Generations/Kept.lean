import SharedCells.Proofs.Lazy.Generations.Ledger

/-!
# What an advance leaves alone

An advance changes the top of the stack of one thread, and perhaps one holder. A call elsewhere
may stand where it stands as long as what it relies on is `Kept`. When the innermost call of a
thread only goes on, the parts of the invariant about replacements, counts and answers stay as
they are (`Inv.goesOn`).
-/

namespace SharedCells.Lazy

variable {T E : Type} {initializer : Nat → Routine T E} {g g' : Ledger} {l l' : Lineage T E}
  {t d : Nat} {call : Call} {stage stage' : Stage T E} {rest : List (Frame T E)}

/-- What holds of all holders after one of them changed. -/
theorem holders_of_update {P : Nat → Holder T E → Prop} {k : Nat} {holder : Holder T E}
    (hset : l'.holders = Function.update l.holders k holder) (hnew : P k holder)
    (hold : ∀ h, h ≠ k → P h (l.holders h)) (h : Nat) : P h (l'.holders h) := by
  rw [hset]
  exact (Function.forall_update_iff l.holders P).2 ⟨hnew, hold⟩ h

/-- The holders stay as they are. -/
theorem Later.same (hholders : l'.holders = l.holders) (hinstalled : l'.installed = l.installed)
    (hruns : l'.runs = l.runs) : Later l l' := by
  refine ⟨Nat.le_of_eq hinstalled.symm, ⟨[], hruns.trans (List.append_nil _).symm⟩, ?_, ?_, ?_, ?_⟩
  all_goals rw [hholders]
  · exact fun _ _ => id
  · exact fun _ => id
  · exact fun _ _ => id
  · exact fun _ => id

/-- What a call relies on at a place that is not touched. -/
structure Kept (g g' : Ledger) (l l' : Lineage T E) (t d : Nat) : Prop where
  target : g'.target t d = g.target t d
  watch : g'.watch = g.watch
  owner : ∀ h, g.owner h = some (t, d) → g'.owner h = some (t, d) ∧
    (l'.holders h).outcome = (l.holders h).outcome ∧ (l'.holders h).armed = (l.holders h).armed
  due : ∀ h, g.target t d = some h → h ∈ g.uncounted → h ∈ g'.uncounted

theorem Ledger.ties_le (hlater : Later l l') (htarget : g'.target t d = g.target t d)
    (hwatch : g'.watch = g.watch)
    (hbound : ∀ h, g.target t d = some h → h + 1 < l.installed)
    (hdue : ∀ h, g.target t d = some h → h ∈ g.uncounted → h ∈ g'.uncounted) (call : Call) :
    (g.ties l t d call).Le (g'.ties l' t d call) where
  near h hnear := by
    refine ⟨Nat.lt_of_lt_of_le hnear.1 hlater.installed, hwatch ▸ hnear.2.1, fun hreplaces => ?_⟩
    obtain ⟨hsome, hcancelled⟩ := hnear.2.2 hreplaces
    exact ⟨htarget.trans hsome,
      Iff.trans ⟨hlater.live _ (hbound h hsome), hlater.cancelled _⟩ hcancelled⟩
  free hfree := htarget.trans hfree
  due h hdue' := ⟨htarget.trans hdue'.1, hdue h hdue'.1 hdue'.2⟩

theorem Frame.Sits.keep {f : Frame T E} (h : f.Sits initializer g l t d) (hlater : Later l l')
    (hkept : Kept g g' l l' t d) (hbound : ∀ h, g.target t d = some h → h + 1 < l.installed) :
    f.Sits initializer g' l' t d where
  renews := h.renews
  free hreplaces := hkept.target.trans (h.free hreplaces)
  allowed := h.allowed.mono
    (Ledger.ties_le hlater hkept.target hkept.watch hbound hkept.due f.call) hlater
    fun h' hclaimed => (hkept.owner h' (h.owns h' hclaimed)).2
  owns h' hclaimed := (hkept.owner h' (h.owns h' hclaimed)).1

/-- The top of the stack of one thread changes. -/
theorem Seated.change (h : Seated initializer g l) (old new : List (Frame T E))
    (hf : l.frames t = old ++ rest) (hf' : l'.frames = Function.update l.frames t (new ++ rest))
    (hlater : Later l l') (hbound : ∀ u d h, g.target u d = some h → h + 1 < l.installed)
    (hkept : ∀ u d, (u = t → d < rest.length) → Kept g g' l l' u d)
    (hcalls : ∀ u, ∀ c ∈ l'.calls u, c.Renews) (hnested : ∀ f ∈ (new ++ rest).tail, f.Runs)
    (hnew : Stacked (fun d f => f.Sits initializer g' l' t d) rest →
      Stacked (fun d f => f.Sits initializer g' l' t d) (new ++ rest)) :
    Seated initializer g' l' where
  calls := hcalls
  frames := Stacked.change h.frames hf hf'
    (fun u d hplace f hsits => hsits.keep hlater (hkept u d hplace) (hbound u d)) hnew
  nested u f hmem := by
    rw [hf'] at hmem
    by_cases hu : u = t
    · rw [hu, Function.update_self] at hmem
      exact hnested f hmem
    · rw [Function.update_of_ne hu] at hmem
      exact h.nested u f hmem

theorem Traced.keep (h : Traced g l) (hlater : Later l l') (hinstalled : l.current < l.installed)
    (hcurrent : l'.current = l.current) (htarget : g'.target = g.target)
    (hreported : g'.reported = g.reported)
    (hlength : ∀ u, (l.frames u).length ≤ (l'.frames u).length) : Traced g' l' where
  target u d h' hsome := by
    rw [htarget] at hsome
    obtain ⟨hd, hlt⟩ := h.target u d h' hsome
    exact ⟨Nat.lt_of_lt_of_le hd (hlength u), hcurrent ▸ hlt⟩
  unique := by
    rw [htarget]
    exact h.unique
  nodup := by
    rw [hreported]
    exact h.nodup
  reported h' hmem := by
    rw [hreported] at hmem
    obtain ⟨hlt, hlive, hno⟩ := h.reported h' hmem
    refine ⟨hcurrent ▸ hlt, fun hcancelled => hlive ?_, htarget ▸ hno⟩
    exact hlater.live _ (Nat.lt_of_le_of_lt hlt hinstalled) hcancelled
  all h' hlt := by
    rw [hreported, htarget]
    rcases h.all h' (hcurrent ▸ hlt) with hmem | hcancelled | hsome
    · exact Or.inl hmem
    · exact Or.inr (Or.inl (hlater.cancelled _ hcancelled))
    · exact Or.inr (Or.inr hsome)

theorem Later.ends_eq (hlater : Later l l') (hinstalled : l.current < l.installed)
    (hcurrent : l'.current = l.current) : l'.ends = l.ends := by
  rw [Lineage.ends, hcurrent, hlater.isCancelled_eq hinstalled]
  rfl

theorem Counted.keep (h : Counted g l) (hlater : Later l l')
    (hinstalled : l.current < l.installed) (hcurrent : l'.current = l.current)
    (hgeneration : l'.generation = l.generation) (huncounted : g'.uncounted = g.uncounted)
    (hplace : ∀ h ∈ g.uncounted, ∀ u, ∀ f ∈ l.frames u, f.call = .reset →
      f.stage.uncounted = some h →
        ∃ f' ∈ l'.frames u, f'.call = .reset ∧ f'.stage.uncounted = some h) :
    Counted g' l' where
  nodup := by
    rw [huncounted]
    exact h.nodup
  bound := by
    rw [huncounted, hcurrent]
    exact h.bound
  place h' hmem := by
    rw [huncounted] at hmem
    obtain ⟨u, f, hf, hreset, hsome⟩ := h.place h' hmem
    exact ⟨u, hplace h' hmem u f hf hreset hsome⟩
  total := by
    rw [hgeneration, huncounted, hlater.ends_eq hinstalled hcurrent, hcurrent]
    exact h.total

theorem Told.keep (h : Told g l) (hlater : Later l l') (hlog : l'.log = l.log)
    (hcurrent : l'.current = l.current) (htarget : g'.target = g.target)
    (hreported : g'.reported = g.reported) : Told g' l' where
  resets := by
    rw [hlog, hreported]
    exact h.resets.imp fun r h' ⟨o, ho, hr⟩ => ⟨o, hlater.outcome h' o ho, hr⟩
  cancels := by
    rw [hlog, hcurrent, htarget]
    exact h.cancels.imp_right fun ⟨hone, hcancelled, hno⟩ =>
      ⟨hone, hlater.cancelled _ hcancelled, hno⟩

theorem Sound.same (h : Sound initializer g l) (hholders : l'.holders = l.holders)
    (hinstalled : l'.installed = l.installed) (hcurrent : l'.current = l.current)
    (hruns : l'.runs = l.runs) (howner : g'.owner = g.owner) : Sound initializer g' l' where
  holders := by
    rw [hholders, hruns, howner]
    exact h.holders
  runs := hruns ▸ h.runs
  installed := by rw [hinstalled, hcurrent, h.installed]
  live := by
    rw [hholders, hcurrent]
    exact h.live
  retired := by
    rw [hholders, hcurrent]
    exact h.retired
  unmade := by
    rw [hholders, hinstalled]
    exact h.unmade

theorem Sound.current_lt (h : Sound initializer g l) : l.current < l.installed := by
  rw [h.installed]
  exact Nat.lt_succ_self _

theorem Inv.bound (h : Inv initializer g l) (u d h' : Nat) (hsome : g.target u d = some h') :
    h' + 1 < l.installed := by
  rw [h.sound.installed]
  exact Nat.succ_lt_succ (h.traced.target u d h' hsome).2

/-- The place of the innermost call of a thread. -/
theorem Inv.head (h : Inv initializer g l) {f : Frame T E} (hf : l.frames t = f :: rest) :
    f.Sits initializer g l t rest.length :=
  (hf ▸ h.seated.frames t : Stacked _ (f :: rest)).1

theorem Inv.nested (h : Inv initializer g l) {f : Frame T E} (hf : l.frames t = f :: rest) :
    ∀ f' ∈ rest, f'.Runs := by
  have hnested := h.seated.nested t
  rw [hf] at hnested
  exact hnested

/-- The innermost call of a thread goes on. -/
theorem Inv.goesOn (h : Inv initializer g l) (hlater : Later l l')
    (hf : l.frames t = ⟨call, stage⟩ :: rest)
    (hf' : l'.frames = Function.update l.frames t (⟨call, stage'⟩ :: rest))
    (hcalls : l'.calls = l.calls) (hcurrent : l'.current = l.current)
    (hgeneration : l'.generation = l.generation) (hlog : l'.log = l.log)
    {owner : Nat → Option (Nat × Nat)}
    (howner : ∀ p, p ≠ (t, rest.length) → ∀ h, g.owner h = some p → owner h = some p ∧
      (l'.holders h).outcome = (l.holders h).outcome ∧ (l'.holders h).armed = (l.holders h).armed)
    (hsound : Sound initializer { g with owner } l')
    (huncounted : call = .reset → stage.uncounted ≠ none → stage'.uncounted = stage.uncounted)
    (hallowed : (g.ties l t rest.length call).Le
      (Ledger.ties { g with owner } l' t rest.length call) →
        stage'.Allowed initializer (Ledger.ties { g with owner } l' t rest.length call) l' call)
    (howns : ∀ h, stage'.claimed = some h → owner h = some (t, rest.length)) :
    Inv initializer { g with owner } l' := by
  have hinstalled := h.sound.current_lt
  have hsits := h.head hf
  have hle : (g.ties l t rest.length call).Le
      (Ledger.ties { g with owner } l' t rest.length call) :=
    Ledger.ties_le hlater rfl rfl (h.bound t rest.length) (fun _ _ => id) call
  have hseated : Seated initializer { g with owner } l' := by
    refine h.seated.change [⟨call, stage⟩] [⟨call, stage'⟩] hf hf' hlater
      h.bound (fun u d hplace => ⟨rfl, rfl, howner _ ?_, fun _ _ => id⟩) (hcalls ▸ h.seated.calls)
      (h.nested hf) fun hrest => ⟨⟨hsits.renews, hsits.free, hallowed hle, howns⟩, hrest⟩
    rintro hsame
    obtain ⟨rfl, rfl⟩ := Prod.mk.inj hsame
    exact Nat.lt_irrefl _ (hplace rfl)
  have htraced : Traced { g with owner } l' := by
    refine h.traced.keep hlater hinstalled hcurrent rfl rfl fun u => ?_
    have hsame : (l'.frames u).length = (l.frames u).length := hf' ▸ length_update_cons hf _ u
    exact Nat.le_of_eq hsame.symm
  have hcounted : Counted { g with owner } l' := by
    refine h.counted.keep hlater hinstalled hcurrent hgeneration rfl
      fun h' _ u f hmem hreset hsome => ?_
    rw [hf']
    rcases mem_update_append hf [⟨call, stage'⟩] hmem with ⟨rfl, rfl⟩ | hmem'
    · -- A reset that has yet to count does not forget what it has replaced.
      have hstage : stage'.uncounted = some h' := by
        rw [← hsome]
        exact huncounted hreset (by rw [hsome]; exact Option.some_ne_none _)
      refine ⟨⟨call, stage'⟩, ?_, hreset, hstage⟩
      rw [Function.update_self]
      exact List.mem_cons_self
    · exact ⟨f, hmem', hreset, hsome⟩
  exact ⟨hseated, hsound, htraced, hcounted, h.told.keep hlater hlog hcurrent rfl rfl⟩

end SharedCells.Lazy
