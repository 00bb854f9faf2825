import SharedCells.Proofs.Lazy.Generations.Computing
import SharedCells.Proofs.Lazy.Generations.Replacements
import SharedCells.Proofs.Lazy.Generations.Replies

/-!
# The ledger is kept

Every advance keeps the invariant, with a ledger that is brought up to date (`Inv.advances`).
-/

namespace SharedCells.Lazy

variable {T E : Type} {initializer : Nat → Routine T E} {g g' : Ledger} {l l' : Lineage T E}
  {t d : Nat} {call : Call} {stage stage' : Stage T E} {rest : List (Frame T E)}

/-- What a call may rely on at its place goes with the reference. -/
theorem Inv.fit (h : Inv initializer g l) (hwatch : ∀ u d, g.watch u d l.current)
    (hf : l.frames t = ⟨call, stage⟩ :: rest) : (g.ties l t rest.length call).Fit l call where
  renews := (h.head hf).renews
  free := (h.head hf).free
  current hlooks := by
    refine ⟨h.sound.current_lt, hwatch t rest.length, fun hreplaces => ?_⟩
    cases call with
    | reset | cancel => cases hlooks
    | _ => cases hreplaces
  installed := h.sound.current_lt
  live hreplaces k hnear := h.sound.live k (h.traced.target _ _ k (hnear.2.2 hreplaces).1).2

/-- What the innermost call of a thread may rely on. -/
def Ledger.headTies (g : Ledger) (l : Lineage T E) (t : Nat) : Ties :=
  match l.frames t with
  | [] => ⟨fun _ => False, False, fun _ => False⟩
  | f :: rest => g.ties l t rest.length f.call

theorem Ledger.headTies_eq (g : Ledger) (hf : l.frames t = ⟨call, stage⟩ :: rest) :
    g.headTies l t = g.ties l t rest.length call := by
  rw [headTies, hf]

/-- Every turn is an advance of the thread that moves in it. -/
theorem Inv.step_advances {s : System T E} (h : Inv initializer g s.lineage)
    (hwatch : ∀ u d, g.watch u d s.current) (turn : Turn) :
    Advances initializer (g.headTies s.lineage turn.mover) s.lineage turn.mover
      (s.step initializer turn).lineage := by
  refine SharedCells.Lazy.step_advances turn fun call stage rest hf => ?_
  rw [g.headTies_eq hf]
  exact ⟨h.fit hwatch hf, (h.head hf).allowed⟩

theorem Inv.advances (h : Inv initializer g l) (hwatch : ∀ u d, g.watch u d l.current)
    (hduring : ∀ run, ∀ c ∈ (initializer run).during, c.Renews)
    (hadvances : Advances initializer (g.headTies l t) l t l') :
    ∃ g', Inv initializer g' l' ∧ g'.watch = g.watch := by
  cases hadvances with
  | stays => exact ⟨g, h, rfl⟩
  | begins hf hcalls => exact ⟨g, h.begins hf hcalls, rfl⟩
  | nests hf => exact ⟨g, h.nests hf, rfl⟩
  | passes hf hclaimed hallowed huncounted harming =>
    exact ⟨g, h.passes hf hclaimed (g.headTies_eq hf ▸ hallowed) huncounted, rfl⟩
  | @replies call stage a rest hf hclaimed hanswers huncounted =>
    obtain ⟨caller, hcaller⟩ := callerOf_of_runs t (h.nested hf)
    have hanswers' := g.headTies_eq hf ▸ hanswers
    obtain ⟨ended, hended⟩ := h.ended hf hanswers' caller
    rw [Lineage.reply, hcaller]
    exact ⟨_, h.replies hf hended hanswers' huncounted, rfl⟩
  | claims hf hphase hstage => exact ⟨_, h.claims hf hphase hstage, rfl⟩
  | handsBack hf => exact ⟨_, h.handsBack hf, rfl⟩
  | enters hf => exact ⟨g, h.enters hduring hf, rfl⟩
  | concludes hf => exact ⟨g, h.concludes hf, rfl⟩
  | publishes hf => exact ⟨g, h.publishes hf, rfl⟩
  | completes hf => exact ⟨_, h.completes hf, rfl⟩
  | replaces hreplaces hf => exact ⟨_, h.replaces hf hreplaces (hwatch _ _), rfl⟩
  | counts hf => exact ⟨_, h.counts hf, rfl⟩
  | retires hf => exact ⟨g, h.retires hf, rfl⟩

/-- What lasts over an advance. -/
theorem Inv.later (h : Inv initializer g l)
    (hadvances : Advances initializer (g.headTies l t) l t l') : Later l l' := by
  cases hadvances with
  | @replies call stage a rest hf hclaimed hanswers huncounted =>
    obtain ⟨log, hreply, -⟩ := l.reply_eq t rest call a
    rw [hreply]
    exact .same rfl rfl rfl
  | claims hf hphase hstage =>
    exact .of_set rfl rfl ⟨[], (List.append_nil _).symm⟩ (fun _ => id) (by simp [hphase]) id
  | handsBack hf =>
    have hphase := (h.claimed hf rfl).2
    exact .of_set rfl rfl ⟨[], (List.append_nil _).symm⟩ (fun _ => id) (by simp [hphase]) id
  | enters hf => exact .of_set rfl rfl ⟨[_], rfl⟩ (fun _ => id) Iff.rfl id
  | publishes hf =>
    obtain ⟨-, -, hnone, -⟩ := (h.head hf).allowed
    exact .of_set rfl rfl ⟨[], (List.append_nil _).symm⟩
      (fun o ho => nomatch hnone.symm.trans ho) Iff.rfl id
  | completes hf =>
    have hphase := (h.claimed hf rfl).2
    exact .of_set rfl rfl ⟨[], (List.append_nil _).symm⟩ (fun _ => id) (by simp [hphase]) id
  | replaces hreplaces hf => exact .install h.sound _ _ _
  | retires hf =>
    exact .of_set rfl rfl ⟨[], (List.append_nil _).symm⟩ (fun _ => id) Iff.rfl fun _ => rfl
  | _ => exact .same rfl rfl rfl

end SharedCells.Lazy
