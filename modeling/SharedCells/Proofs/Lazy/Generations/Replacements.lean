import SharedCells.Proofs.Lazy.Generations.Kept

/-!
# Calls that replace a generation

A call puts another holder in the place of the current one. The ledger then tells that it has
replaced that holder, and if it is a reset, that this is yet to be counted.
-/

namespace SharedCells.Lazy

variable {T E : Type} {initializer : Nat → Routine T E} {g g' : Ledger} {l l' : Lineage T E}
  {t d : Nat} {call : Call} {stage stage' : Stage T E} {rest : List (Frame T E)}

/-- A call is the only one that has replaced what it has replaced. -/
theorem Inv.target_ne (h : Inv initializer g l) {k u e : Nat} (hsome : g.target t d = some k)
    (hne : u = t → e ≠ d) {k' : Nat} (hsome' : g.target u e = some k') : k' ≠ k := by
  rintro rfl
  obtain ⟨rfl, rfl⟩ := h.traced.unique u e t d k' hsome' hsome
  exact hne rfl rfl

/-- A call counts what it has replaced. -/
theorem Inv.counts (h : Inv initializer g l) {k : Nat}
    (hf : l.frames t = ⟨call, .counting k⟩ :: rest) :
    Inv initializer { g with uncounted := g.uncounted.erase k }
      (Lineage.put { l with generation := l.generation + 1 } t (⟨call, .retiring k⟩ :: rest)) := by
  have hsits := h.head hf
  obtain ⟨rfl, hnear, hdue, hmem⟩ := hsits.allowed
  have hinstalled := h.sound.current_lt
  have hlater : Later l (Lineage.put { l with generation := l.generation + 1 } t
      (⟨.reset, .retiring k⟩ :: rest)) := .same rfl rfl rfl
  have hseated : Seated initializer { g with uncounted := g.uncounted.erase k }
      (Lineage.put { l with generation := l.generation + 1 } t
        (⟨.reset, .retiring k⟩ :: rest)) := by
    refine h.seated.change [⟨.reset, .counting k⟩] [⟨.reset, .retiring k⟩] hf rfl hlater h.bound
      (fun u e hplace => ⟨rfl, rfl, fun h' hsome => ⟨hsome, rfl, rfl⟩, fun h' hsome hmem' => ?_⟩)
      h.seated.calls (h.nested hf)
      fun hrest => ⟨⟨trivial, hsits.free, ⟨trivial, hnear⟩, fun h' hno => nomatch hno⟩, hrest⟩
    -- Another reset has replaced another holder, which is still to be counted.
    have hplace' : u = t → e ≠ rest.length := fun hu => Nat.ne_of_lt (hplace hu)
    exact (List.mem_erase_of_ne (h.target_ne hdue hplace' hsome)).2 hmem'
  have hplaces : ∀ h' ∈ g.uncounted.erase k, ∃ u, ∃ f ∈ Function.update l.frames t
      (⟨.reset, .retiring k⟩ :: rest) u, f.call = .reset ∧ f.stage.uncounted = some h' := by
    intro h' hmem'
    obtain ⟨u, f, hf', hreset, hsome⟩ := h.counted.place h' (List.mem_of_mem_erase hmem')
    have hne : h' ≠ k := (h.counted.nodup.mem_erase_iff.1 hmem').1
    rcases mem_update_append hf [⟨.reset, .retiring k⟩] hf' with ⟨-, rfl⟩ | hmem''
    · exact absurd (Option.some.inj hsome).symm hne
    · exact ⟨u, f, hmem'', hreset, hsome⟩
  have htotal : l.generation + 1 + (g.uncounted.erase k).length + l.ends = l.current := by
    have hlength := List.length_erase_of_mem hmem
    have hpos := List.length_pos_of_mem hmem
    have hbefore := h.counted.total
    omega
  refine ⟨hseated, h.sound.same rfl rfl rfl rfl rfl, ?_, ⟨h.counted.nodup.erase k,
    fun h' hmem' => h.counted.bound h' (List.mem_of_mem_erase hmem'), hplaces, htotal⟩,
    h.told.keep hlater rfl rfl rfl rfl⟩
  exact h.traced.keep hlater hinstalled rfl rfl rfl fun u =>
    Nat.le_of_eq (length_update_cons hf _ u).symm

theorem Lineage.holders_install_self (l : Lineage T E) (holder : Holder T E) :
    (l.install holder).holders l.installed = holder :=
  l.holders_set_self ..

theorem Lineage.holders_install_of_ne (l : Lineage T E) (holder : Holder T E) {h : Nat}
    (hne : h ≠ l.installed) : (l.install holder).holders h = l.holders h :=
  l.holders_set_of_ne _ hne

theorem Later.install (hsound : Sound initializer g l) (holder : Holder T E) (t : Nat)
    (frames : List (Frame T E)) : Later l ((l.install holder).put t frames) := by
  have hfresh : l.holders l.installed = .fresh := hsound.unmade _ (Nat.le_refl _)
  refine ⟨Nat.le_succ _, ⟨[], (List.append_nil _).symm⟩, ?_, ?_, fun h hlt hphase => ?_, ?_⟩
  · refine holders_of_update (P := fun h new =>
      ∀ o, (l.holders h).outcome = some o → new.outcome = some o) rfl ?_ fun _ _ _ => id
    rw [hfresh]
    exact fun o hno => nomatch hno
  · refine holders_of_update (P := fun h new =>
      (l.holders h).phase = .cancelled → new.phase = .cancelled) rfl ?_ fun _ _ => id
    rw [hfresh]
    exact fun hno => nomatch hno
  · rw [← l.holders_install_of_ne holder (Nat.ne_of_lt hlt)]
    exact hphase
  · refine holders_of_update (P := fun h new =>
      (l.holders h).retired = true → new.retired = true) rfl ?_ fun _ _ => id
    rw [hfresh]
    exact fun hno => nomatch hno

/-- A call installs a holder in the place of one that is not cancelled. -/
theorem Sound.install (h : Sound initializer g l) (call : Call)
    (hlive : (l.holders l.current).phase ≠ .cancelled) :
    Sound initializer g (l.install (System.replacement call)) where
  holders h' := by
    by_cases hh : h' = l.installed
    · subst hh
      have hfresh : (Holder.fresh : Holder T E).Sound initializer l.runs (g.owner l.installed)
          l.installed := h.unmade l.installed (Nat.le_refl _) ▸ h.holders l.installed
      have howner : g.owner l.installed = none := by
        by_contra hno
        cases hfresh.owner hno
      rw [l.holders_install_self, howner]
      cases call with
      | cancel =>
        exact ⟨fun hno => absurd rfl hno, fun hno => (nomatch hno), fun _ => rfl,
          fun hno => (nomatch hno), fun o hno => nomatch hno⟩
      | _ => exact howner ▸ hfresh
    · rw [l.holders_install_of_ne _ hh]
      exact h.holders h'
  runs := h.runs
  installed := rfl
  live h' hlt := by
    rw [l.holders_install_of_ne _ (Nat.ne_of_lt hlt)]
    have hle : h' < l.current + 1 := h.installed ▸ hlt
    rcases Nat.lt_succ_iff_lt_or_eq.1 hle with hlt' | rfl
    · exact h.live h' hlt'
    · exact hlive
  retired := by
    show ((l.install (System.replacement call)).holders l.installed).retired = false
    rw [l.holders_install_self]
    cases call <;> rfl
  unmade h' hle := by
    have hle' : l.installed < h' := hle
    rw [l.holders_install_of_ne _ (Nat.ne_of_gt hle')]
    exact h.unmade h' (Nat.le_of_lt hle')

/-- The ledger after the call at a place has replaced a holder. -/
def Ledger.replace (g : Ledger) (t d : Nat) (call : Call) (k : Nat) : Ledger :=
  { g.aim t d (some k) with
    uncounted := if call = .reset then k :: g.uncounted else g.uncounted }

theorem Ledger.mem_uncounted_replace (g : Ledger) (t d : Nat) (call : Call) (k : Nat) {h : Nat}
    (hmem : h ∈ g.uncounted) : h ∈ (g.replace t d call k).uncounted := by
  simp only [replace]
  split
  · exact List.mem_cons_of_mem _ hmem
  · exact hmem

/-- What is aimed at after a replacement is the holder that was current, or it was aimed at
before. -/
theorem Inv.target_replace (h : Inv initializer g l) {u e k : Nat}
    (hsome : (g.replace t d call l.current).target u e = some k) :
    (u = t ∧ e = d ∧ k = l.current) ∨ g.target u e = some k ∧ k < l.current := by
  by_cases hplace : u = t ∧ e = d
  · obtain ⟨rfl, rfl⟩ := hplace
    exact Or.inl ⟨rfl, rfl, (Option.some.inj ((g.aim_self ..).symm.trans hsome)).symm⟩
  · have hold : g.target u e = some k :=
      (g.aim_of_ne _ fun hu he => hplace ⟨hu, he⟩).symm.trans hsome
    exact Or.inr ⟨hold, (h.traced.target u e k hold).2⟩

theorem replacement_cancelled (hreplaces : call.Replaces) :
    (System.replacement call : Holder T E).phase = .cancelled ↔ call = .cancel := by
  cases call with
  | reset => simp [System.replacement, Holder.fresh]
  | cancel => simp [System.replacement, Holder.cancelled]
  | _ => cases hreplaces

section Replace

variable (h : Inv initializer g l) (hf : l.frames t = ⟨call, .swapping l.current false⟩ :: rest)

include h hf

theorem Inv.seated_replaces (hreplaces : call.Replaces)
    (hwatch : g.watch t rest.length l.current) :
    Seated initializer (g.replace t rest.length call l.current)
      ((l.install (System.replacement call)).put t (⟨call, .swapped l.current⟩ :: rest)) := by
  have hsits := h.head hf
  -- Nobody holds a claim of the holder that is put in.
  have hclaimed : ∀ p k, g.owner k = some p → k ≠ l.installed := by
    rintro p k hsome rfl
    have hphase := (h.sound.holders l.installed).owner (by rw [hsome]; exact Option.some_ne_none _)
    rw [h.sound.unmade _ (Nat.le_refl _)] at hphase
    cases hphase
  have hnext : ((l.install (System.replacement call)).holders (l.current + 1)).phase = .cancelled ↔
      call = .cancel := by
    rw [← h.sound.installed, l.holders_install_self]
    exact replacement_cancelled hreplaces
  have hallowed : Stage.Allowed initializer
      (Ledger.ties (g.replace t rest.length call l.current)
        ((l.install (System.replacement call)).put t (⟨call, .swapped l.current⟩ :: rest)) t
          rest.length call)
      ((l.install (System.replacement call)).put t (⟨call, .swapped l.current⟩ :: rest)) call
      (.swapped l.current) := by
    refine ⟨hreplaces, Or.inr ⟨⟨Nat.lt_succ_of_lt h.sound.current_lt, hwatch, fun _ =>
      ⟨g.aim_self .., hnext⟩⟩, fun hreset => ⟨g.aim_self .., ?_⟩⟩⟩
    have hreset' : call = .reset := hreset
    simp [Ledger.replace, hreset']
  refine h.seated.change [⟨call, .swapping l.current false⟩] [⟨call, .swapped l.current⟩] hf rfl
    (Later.install h.sound _ _ _) h.bound (fun u e hplace => ⟨?_, rfl, fun k hsome => ?_, fun k _ =>
      g.mem_uncounted_replace _ _ _ _⟩) h.seated.calls (h.nested hf)
    fun hrest => ⟨⟨hsits.renews, fun hno => absurd hreplaces hno, hallowed,
      fun h' hno => nomatch hno⟩, hrest⟩
  · exact g.aim_of_ne _ fun hu => Nat.ne_of_lt (hplace hu)
  · have hne := hclaimed _ k hsome
    exact ⟨hsome, congrArg Holder.outcome (l.holders_install_of_ne _ hne),
      congrArg Holder.armed (l.holders_install_of_ne _ hne)⟩

theorem Inv.replaced_live : (l.holders l.current).phase ≠ .cancelled :=
  of_decide_eq_false (h.head hf).allowed.2.2.2.symm

theorem Inv.traced_replaces :
    Traced (g.replace t rest.length call l.current)
      ((l.install (System.replacement call)).put t (⟨call, .swapped l.current⟩ :: rest)) where
  target u e k hsome := by
    have hlength : (Function.update l.frames t (⟨call, .swapped l.current⟩ :: rest) u).length =
        (l.frames u).length := length_update_cons hf _ u
    show e < (Function.update l.frames t (⟨call, .swapped l.current⟩ :: rest) u).length ∧
      k < l.installed
    rw [hlength]
    rcases h.target_replace hsome with ⟨rfl, rfl, rfl⟩ | ⟨hold, hlt⟩
    · rw [hf]
      exact ⟨Nat.lt_succ_self _, h.sound.current_lt⟩
    · exact ⟨(h.traced.target u e k hold).1, Nat.lt_trans hlt h.sound.current_lt⟩
  unique u e u' e' k hsome hsome' := by
    rcases h.target_replace hsome with ⟨rfl, rfl, rfl⟩ | ⟨hold, hlt⟩ <;>
      rcases h.target_replace hsome' with ⟨rfl, rfl, hk⟩ | ⟨hold', hlt'⟩
    · exact ⟨rfl, rfl⟩
    · exact absurd hlt' (Nat.lt_irrefl _)
    · exact absurd (hk ▸ hlt) (Nat.lt_irrefl _)
    · exact h.traced.unique u e u' e' k hold hold'
  nodup := h.traced.nodup
  reported k hmem := by
    obtain ⟨hlt, hlive, hno⟩ := h.traced.reported k hmem
    have hlater := Later.install h.sound (System.replacement call) t
      (⟨call, .swapped l.current⟩ :: rest)
    have hinstalled : k + 1 < l.installed := Nat.lt_of_le_of_lt hlt h.sound.current_lt
    refine ⟨Nat.lt_trans hlt h.sound.current_lt, fun hcancelled => ?_, fun u e hsome => ?_⟩
    · exact hlive (hlater.live _ hinstalled hcancelled)
    · rcases h.target_replace hsome with ⟨-, -, rfl⟩ | ⟨hold, -⟩
      · exact Nat.lt_irrefl _ hlt
      · exact hno u e hold
  all k hlt := by
    have hlater := Later.install h.sound (System.replacement call) t
      (⟨call, .swapped l.current⟩ :: rest)
    have hle : k < l.current + 1 := h.sound.installed ▸ hlt
    rcases Nat.lt_succ_iff_lt_or_eq.1 hle with hlt' | rfl
    · rcases h.traced.all k hlt' with hmem | hcancelled | ⟨u, e, hsome⟩
      · exact Or.inl hmem
      · exact Or.inr (Or.inl (hlater.cancelled _ hcancelled))
      · -- The call at this place has replaced something, so it is not the one that moves.
        refine Or.inr (Or.inr ⟨u, e, (g.aim_of_ne _ fun hu he => ?_).trans hsome⟩)
        subst hu
        subst he
        exact nomatch (h.head hf).allowed.2.1.symm.trans hsome
    · exact Or.inr (Or.inr ⟨t, rest.length, g.aim_self ..⟩)

theorem Inv.counted_replaces (hreplaces : call.Replaces) :
    Counted (g.replace t rest.length call l.current)
      ((l.install (System.replacement call)).put t (⟨call, .swapped l.current⟩ :: rest)) := by
  have hinstalled := h.sound.installed
  -- The count falls behind by one, unless the reference ends with this.
  have hlive : l.ends = 0 := if_neg (by simpa [Holder.isCancelled] using h.replaced_live hf)
  have htotal := h.counted.total
  have hends : ((l.install (System.replacement call)).put t
      (⟨call, .swapped l.current⟩ :: rest)).ends = if call = .reset then 0 else 1 := by
    show (if ((l.install (System.replacement call)).holders l.installed).isCancelled then 1 else 0)
      = _
    rw [l.holders_install_self]
    cases call with
    | reset => rfl
    | cancel => rfl
    | _ => cases hreplaces
  have hnew : l.current ∉ g.uncounted := fun hmem =>
    absurd (h.counted.bound _ hmem) (Nat.lt_irrefl _)
  have hold : ∀ k ∈ g.uncounted, ∃ u, ∃ f ∈ Function.update l.frames t
      (⟨call, .swapped l.current⟩ :: rest) u, f.call = .reset ∧ f.stage.uncounted = some k := by
    intro k hmem
    obtain ⟨u, f, hmem', hreset, hsome⟩ := h.counted.place k hmem
    rcases mem_update_append hf [⟨call, .swapped l.current⟩] hmem' with ⟨-, rfl⟩ | hmem''
    · cases hsome
    · exact ⟨u, f, hmem'', hreset, hsome⟩
  have hbound : ∀ k ∈ g.uncounted, k < l.installed := fun k hmem =>
    Nat.lt_trans (h.counted.bound k hmem) h.sound.current_lt
  by_cases hreset : call = .reset
  · have huncounted : (g.replace t rest.length call l.current).uncounted =
        l.current :: g.uncounted := if_pos hreset
    refine ⟨huncounted ▸ List.nodup_cons.2 ⟨hnew, h.counted.nodup⟩, ?_, ?_, ?_⟩
    · rw [huncounted]
      exact List.forall_mem_cons.2 ⟨h.sound.current_lt, hbound⟩
    · rw [huncounted]
      refine List.forall_mem_cons.2 ⟨⟨t, ⟨call, .swapped l.current⟩, ?_, hreset, rfl⟩, hold⟩
      exact (congrArg (_ ∈ ·) (Function.update_self ..)).mpr List.mem_cons_self
    · rw [huncounted, hends, if_pos hreset]
      show l.generation + (g.uncounted.length + 1) + 0 = l.installed
      omega
  · have huncounted : (g.replace t rest.length call l.current).uncounted = g.uncounted :=
      if_neg hreset
    refine ⟨huncounted ▸ h.counted.nodup, huncounted ▸ hbound, huncounted ▸ hold, ?_⟩
    rw [huncounted, hends, if_neg hreset]
    show l.generation + g.uncounted.length + 1 = l.installed
    omega

theorem Inv.told_replaces :
    Told (g.replace t rest.length call l.current)
      ((l.install (System.replacement call)).put t (⟨call, .swapped l.current⟩ :: rest)) where
  resets := h.told.resets.imp fun _ k ⟨o, ho, hr⟩ =>
    ⟨o, (Later.install h.sound (System.replacement call) t
      (⟨call, .swapped l.current⟩ :: rest)).outcome k o ho, hr⟩
  cancels := Or.inl (h.told.cancels.resolve_right fun hno => h.replaced_live hf hno.2.1)

/-- A call replaces the current holder. -/
theorem Inv.replaces (hreplaces : call.Replaces) (hwatch : g.watch t rest.length l.current) :
    Inv initializer (g.replace t rest.length call l.current)
      ((l.install (System.replacement call)).put t (⟨call, .swapped l.current⟩ :: rest)) :=
  ⟨h.seated_replaces hf hreplaces hwatch,
    (h.sound.install call (h.replaced_live hf)).same rfl rfl rfl rfl rfl, h.traced_replaces hf,
    h.counted_replaces hf hreplaces, h.told_replaces hf⟩

end Replace

end SharedCells.Lazy
