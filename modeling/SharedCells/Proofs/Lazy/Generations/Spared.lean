import SharedCells.Proofs.Lazy.Generations.Episodes

/-!
# Generations that are never computed

A generation that a cancel retires before anybody has claimed it is never computed
(`Reached.never_runs`). From then on it is `Spared`: whoever claims it looks once more whether it
is retired, but for a reset that has replaced it, and there is no such reset.
-/

namespace SharedCells.Lazy

variable {T E : Type} {initializer : Nat → Routine T E} {g : Ledger} {l l' : Lineage T E}
  {s : System T E} {t k : Nat} {rest : List (Frame T E)}

/-- A generation was cancelled before anybody had claimed it. -/
structure Spared (l : Lineage T E) (k : Nat) : Prop where
  retired : (l.holders k).retired = true
  /-- It was replaced by a cancel. -/
  ended : k + 1 < l.installed ∧ (l.holders (k + 1)).phase = .cancelled
  unrun : k ∉ l.runs
  /-- No call is about to take the initializer for it. -/
  unarmed : ∀ u, ∀ f ∈ l.frames u, f.stage ≠ .arming k

theorem mem_of_mem_update {frames : Nat → List (Frame T E)} {old new : List (Frame T E)}
    (hf : frames t = old ++ rest) {u : Nat} {f : Frame T E}
    (hmem : f ∈ Function.update frames t (new ++ rest) u) : f ∈ new ∨ f ∈ frames u := by
  by_cases hu : u = t
  · subst hu
    rw [Function.update_self] at hmem
    rw [hf]
    exact (List.mem_append.1 hmem).imp_right (List.mem_append_right _)
  · rw [Function.update_of_ne hu] at hmem
    exact Or.inr hmem

theorem Spared.keep (h : Spared l k) (hlater : Later l l') (hunrun : k ∉ l'.runs)
    (old new : List (Frame T E)) (hf : l.frames t = old ++ rest)
    (hframes : l'.frames = Function.update l.frames t (new ++ rest))
    (hnew : ∀ f ∈ new, f.stage ≠ .arming k) : Spared l' k where
  retired := hlater.retired k h.retired
  ended := ⟨Nat.lt_of_lt_of_le h.ended.1 hlater.installed, hlater.cancelled _ h.ended.2⟩
  unrun := hunrun
  unarmed u f hmem := by
    rw [hframes] at hmem
    rcases mem_of_mem_update hf hmem with hmem | hmem
    · exact hnew f hmem
    · exact h.unarmed u f hmem

/-- A spared generation stays spared: a get would look whether it is retired, and only a reset that
has replaced it would not. -/
theorem Spared.advances (h : Spared l k) (hinv : Inv initializer g l)
    (hadvances : Advances initializer (g.headTies l t) l t l') : Spared l' k := by
  have hlater := hinv.later hadvances
  cases hadvances with
  | stays => exact h
  | @begins call calls hf hcalls =>
    exact h.keep hlater h.unrun [] [⟨call, .start⟩] (hf : l.frames t = [] ++ []) rfl (by simp)
  | nests hf => exact h.keep hlater h.unrun [_] [_, _] hf rfl (by simp)
  | passes hf hclaimed hallowed huncounted harming =>
    refine h.keep hlater h.unrun [_] [_] hf rfl fun f hmem hstage => ?_
    rw [List.mem_singleton.1 hmem] at hstage
    exact absurd h.retired (by rw [harming k hstage]; exact Bool.false_ne_true)
  | @replies call stage a rest hf hclaimed hanswers huncounted =>
    obtain ⟨log, hreply, -⟩ := l.reply_eq t rest call a
    rw [hreply] at hlater ⊢
    exact h.keep hlater h.unrun [_] [] hf rfl fun f hmem => nomatch hmem
  | @claims call k' stage' rest hf hphase hstage =>
    refine h.keep hlater h.unrun [_] [_] hf rfl fun f hmem harming => ?_
    rw [List.mem_singleton.1 hmem] at harming
    obtain ⟨-, hnear⟩ := (hinv.head hf).allowed
    rcases hstage with rfl | ⟨rfl, rfl⟩
    · cases harming
    · cases harming
      cases (hnear.2.2 trivial).2.1 h.ended.2
  | @enters call k' rest hf =>
    have hne : k ≠ k' := by
      rintro rfl
      exact h.unarmed t ⟨call, .arming k⟩ (by rw [hf]; exact List.mem_cons_self) rfl
    refine h.keep hlater (fun hmem => ?_) [_] [_] hf rfl (by simp)
    rcases List.mem_append.1 hmem with hmem | hmem
    · exact h.unrun hmem
    · exact hne (List.mem_singleton.1 hmem)
  | concludes hf => exact h.keep hlater h.unrun [_] [_] hf rfl (by simp)
  | handsBack hf => exact h.keep hlater h.unrun [_] [_] hf rfl (by simp)
  | publishes hf => exact h.keep hlater h.unrun [_] [_] hf rfl (by simp)
  | completes hf => exact h.keep hlater h.unrun [_] [_] hf rfl (by simp)
  | replaces hreplaces hf => exact h.keep hlater h.unrun [_] [_] hf rfl (by simp)
  | counts hf => exact h.keep hlater h.unrun [_] [_] hf rfl (by simp)
  | retires hf => exact h.keep hlater h.unrun [_] [_] hf rfl (by simp)

theorem Stacked.exists_of_mem {P : Nat → Frame T E → Prop} {frames : List (Frame T E)}
    (h : Stacked P frames) {f : Frame T E} (hmem : f ∈ frames) : ∃ d, P d f := by
  induction frames with
  | nil => cases hmem
  | cons f' rest ih =>
    rcases List.mem_cons.1 hmem with rfl | hmem
    · exact ⟨_, h.1⟩
    · exact ih h.2 hmem

/-- A cancel retires a generation that nobody has claimed. -/
theorem Inv.spares (h : Inv initializer g l) (hf : l.frames t = ⟨.cancel, .retiring k⟩ :: rest)
    (hphase : (l.holders k).phase = .unresolved) (after : After T E) :
    Spared ((l.set k { l.holders k with retired := true }).put t
      (⟨.cancel, .draining k after⟩ :: rest)) k where
  retired := congrArg Holder.retired (l.holders_set_self ..)
  ended := by
    obtain ⟨-, -, -, hreplaced⟩ := (h.head hf).allowed
    obtain ⟨htarget, hcancelled⟩ := hreplaced trivial
    refine ⟨?_, ?_⟩
    · have hlt := (h.traced.target t rest.length k htarget).2
      show k + 1 < l.installed
      rw [h.sound.installed]
      exact Nat.succ_lt_succ hlt
    · exact (congrArg Holder.phase (l.holders_set_of_ne _ (Nat.succ_ne_self k))).trans
        (hcancelled.2 rfl)
  unrun := by
    have hsound := h.sound.holders k
    exact hsound.armed (hsound.unresolved hphase).2
  unarmed u f hmem hstage := by
    have hf' : l.frames t = [⟨.cancel, .retiring k⟩] ++ rest := hf
    have hmem' : f ∈ Function.update l.frames t ([⟨.cancel, .draining k after⟩] ++ rest) u := hmem
    rcases mem_of_mem_update hf' hmem' with hmem | hmem
    · rw [List.mem_singleton.1 hmem] at hstage
      cases hstage
    · obtain ⟨d, hsits⟩ := (h.seated.frames u).exists_of_mem hmem
      have howner := hsits.owns k (by rw [hstage]; rfl)
      have hresolving := (h.sound.holders k).owner (by rw [howner]; exact Option.some_ne_none _)
      exact nomatch hphase.symm.trans hresolving

theorem Reached.stays_spared (hs : Reached initializer s)
    (hduring : ∀ run, ∀ c ∈ (initializer run).during, c.Renews) (h : Spared s.lineage k)
    (more : List Turn) : Spared (s.run initializer more).lineage k := by
  induction more generalizing s with
  | nil => exact h
  | cons turn more ih =>
    obtain ⟨g, hinv, hadvances⟩ := hs.advances turn
    exact ih (hs.step hduring turn) (h.advances hinv hadvances)

/-- A generation that a cancel retires before anybody has claimed it is never computed. -/
theorem Reached.never_runs (hs : Reached initializer s)
    (hduring : ∀ run, ∀ c ∈ (initializer run).during, c.Renews)
    (hf : (s.thread t).frames = ⟨.cancel, .retiring k⟩ :: rest)
    (hphase : (s.holder k).phase = .unresolved) (more : List Turn) :
    k ∉ (s.run initializer (.thread t :: more)).runs := by
  have hspared : Spared (s.step initializer (.thread t)).lineage k := by
    obtain ⟨g, hinv, -⟩ := hs
    rw [System.step, System.stepThread, hf]
    show Spared ((s.updateHolder k fun holder => { holder with retired := true }).goTo t
      (.draining k (System.afterRetiring .cancel k))).lineage k
    rw [s.lineage_goTo_updateHolder hf]
    exact hinv.spares hf hphase _
  exact ((hs.step hduring _).stays_spared hduring hspared more).unrun

end SharedCells.Lazy
