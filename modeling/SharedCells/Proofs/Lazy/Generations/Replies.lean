import SharedCells.Proofs.Lazy.Generations.Kept

/-!
# Calls that end

A reset that ends has given out the outcome of the holder that it had replaced, which the ledger
then tells. A cancel that ends and had replaced a holder is the one that has cancelled the
reference.
-/

namespace SharedCells.Lazy

variable {T E : Type} {initializer : Nat → Routine T E} {g g' : Ledger} {l l' : Lineage T E}
  {t d : Nat} {call : Call} {stage stage' : Stage T E} {rest : List (Frame T E)}

theorem callerOf_of_runs (t : Nat) (hruns : ∀ f ∈ rest, f.Runs) :
    ∃ caller, callerOf t rest = some caller := by
  cases rest with
  | nil => exact ⟨.thread t, rfl⟩
  | cons f rest =>
    obtain ⟨call, stage⟩ := f
    obtain ⟨h, purpose, run, calls, hstage⟩ := hruns _ List.mem_cons_self
    cases hstage
    exact ⟨.run run, rfl⟩

theorem Computed.ne_cancelled {runs : List Nat} {h : Nat} {o : Outcome T E}
    (hcomputed : Computed initializer runs h o) : o ≠ .error .cancelled := by
  rintro rfl
  obtain ⟨n, address, -, ho⟩ := hcomputed
  cases hending : (initializer (n + 1)).ending <;> rw [hending] at ho <;> cases ho

theorem Reply.resets_outcome (caller : Caller) {o : Outcome T E} (ho : o ≠ .error .cancelled) :
    (Reply.mk caller .reset (.outcome o)).resets = true := by
  cases o with
  | ok v => rfl
  | error e =>
    cases e with
    | cancelled => exact absurd rfl ho
    | _ => rfl

theorem Reply.resets_of_ne (caller : Caller) (a : Answer T E) (hcall : call ≠ .reset) :
    (Reply.mk caller call a).resets = false := by
  cases call with
  | reset => exact absurd rfl hcall
  | _ => rfl

/-- What a call that ends has given out, if it was a reset that had replaced a holder. -/
structure Ended (g : Ledger) (l : Lineage T E) (t d : Nat) (r : Reply T E) (ended : List Nat) :
    Prop where
  nodup : ended.Nodup
  target : ∀ k ∈ ended, g.target t d = some k ∧ (l.holders (k + 1)).phase ≠ .cancelled
  all : ∀ k, g.target t d = some k → k ∈ ended ∨ (l.holders (k + 1)).phase = .cancelled
  resets : List.Forall₂
    (fun r h => ∃ o, (l.holders h).outcome = some o ∧ Reply.answer r = .outcome o)
    ([r].filter Reply.resets) ended

theorem Ended.of_free {r : Reply T E} (hfree : g.target t d = none) (hresets : r.resets = false) :
    Ended g l t d r [] := by
  refine ⟨List.nodup_nil, fun k hno => (nomatch hno),
    fun k hsome => (nomatch hfree.symm.trans hsome), ?_⟩
  rw [List.filter_cons_of_neg (by simp [hresets])]
  exact .nil

theorem Inv.ended (h : Inv initializer g l) (hf : l.frames t = ⟨call, stage⟩ :: rest)
    {a : Answer T E} (hanswers : call.Answers (g.ties l t rest.length call) l a)
    (caller : Caller) : ∃ ended, Ended g l t rest.length ⟨caller, call, a⟩ ended := by
  have hsits := h.head hf
  by_cases hreplaces : call.Replaces
  · cases call with
    | reset =>
      rcases hanswers with ⟨hfree, rfl⟩ | ⟨k, o, hnear, ho, rfl⟩
      · exact ⟨[], .of_free hfree rfl⟩
      · obtain ⟨hsome, hcancelled⟩ := hnear.2.2 trivial
        have hne := ((h.sound.holders k).outcome o ho).ne_cancelled
        refine ⟨[k], List.nodup_singleton k, fun k' hmem => ?_, fun k' hsome' => ?_, ?_⟩
        · rw [List.mem_singleton.1 hmem]
          exact ⟨hsome, fun hno => nomatch hcancelled.1 hno⟩
        · rw [Option.some.inj (hsome'.symm.trans hsome)]
          exact Or.inl List.mem_cons_self
        · rw [List.filter_cons_of_pos (Reply.resets_outcome caller hne)]
          exact .cons ⟨o, ho, rfl⟩ .nil
    | cancel =>
      rcases hanswers with ⟨hfree, rfl⟩ | ⟨⟨k, hnear⟩, rfl⟩
      · exact ⟨[], .of_free hfree rfl⟩
      · obtain ⟨hsome, hcancelled⟩ := hnear.2.2 trivial
        refine ⟨[], List.nodup_nil, fun k hno => (nomatch hno), fun k' hsome' => ?_, .nil⟩
        rw [Option.some.inj (hsome'.symm.trans hsome)]
        exact Or.inr (hcancelled.2 rfl)
    | _ => cases hreplaces
  · refine ⟨[], .of_free (hsits.free hreplaces) (Reply.resets_of_ne caller a ?_)⟩
    rintro rfl
    exact hreplaces trivial

/-- A call that says that it has cancelled the reference has done so. -/
theorem Inv.cancelled_of_cancels (h : Inv initializer g l) {a : Answer T E} {caller : Caller}
    (hanswers : call.Answers (g.ties l t d call) l a)
    (hcancels : (Reply.mk caller call a).cancels = true) :
    ∃ k, g.target t d = some k ∧ k = l.current - 1 ∧ (l.holders l.current).phase = .cancelled := by
  cases call with
  | cancel =>
    rcases hanswers with ⟨-, rfl⟩ | ⟨⟨k, hnear⟩, -⟩
    · cases hcancels
    · obtain ⟨hsome, hcancelled⟩ := hnear.2.2 trivial
      have hphase := hcancelled.2 rfl
      have hlt := (h.traced.target t d k hsome).2
      -- What follows a holder and is cancelled is current, since it was not replaced.
      have hcurrent : k + 1 = l.current := by
        refine Nat.le_antisymm hlt (Nat.le_of_not_lt fun hlater => ?_)
        exact h.sound.live (k + 1) hlater hphase
      exact ⟨k, hsome, by omega, hcurrent ▸ hphase⟩
  | _ => cases hcancels

/-- The ledger after the call at a place has ended. -/
def Ledger.close (g : Ledger) (t d : Nat) (ended : List Nat) : Ledger :=
  { g.aim t d none with reported := g.reported ++ ended }

section Replies

variable (h : Inv initializer g l) (hf : l.frames t = ⟨call, stage⟩ :: rest) {a : Answer T E}
  {caller : Caller} {ended : List Nat}
  (hended : Ended g l t rest.length ⟨caller, call, a⟩ ended)

include h hf

/-- What is still aimed at was aimed at before, by another call. -/
theorem Inv.target_close {u e k : Nat}
    (hsome : (g.close t rest.length ended).target u e = some k) :
    (u = t → e < rest.length) ∧ g.target u e = some k := by
  have hplace : u = t → e ≠ rest.length := by
    rintro rfl rfl
    exact nomatch (g.aim_self ..).symm.trans hsome
  have hold : g.target u e = some k := (g.aim_of_ne none hplace).symm.trans hsome
  refine ⟨fun hu => ?_, hold⟩
  have hlt := (h.traced.target u e k hold).1
  rw [hu, hf] at hlt
  exact Nat.lt_of_le_of_ne (Nat.le_of_lt_succ hlt) (hplace hu)

theorem Inv.seated_replies :
    Seated initializer (g.close t rest.length ended)
      ((l.put t rest).append ⟨caller, call, a⟩) := by
  refine h.seated.change [⟨call, stage⟩] [] hf rfl (.same rfl rfl rfl) h.bound
    (fun u e hplace => ⟨g.aim_of_ne none fun hu => Nat.ne_of_lt (hplace hu), rfl,
      fun k hsome => ⟨hsome, rfl, rfl⟩, fun _ _ => id⟩) h.seated.calls
    (fun f hmem => h.nested hf f (List.mem_of_mem_tail hmem)) id

include hended

theorem Inv.traced_replies :
    Traced (g.close t rest.length ended) ((l.put t rest).append ⟨caller, call, a⟩) where
  target u e k hsome := by
    obtain ⟨hplace, hold⟩ := h.target_close hf hsome
    obtain ⟨he, hlt⟩ := h.traced.target u e k hold
    refine ⟨?_, hlt⟩
    show e < (Function.update l.frames t rest u).length
    by_cases hu : u = t
    · rw [hu, Function.update_self]
      exact hplace hu
    · rwa [Function.update_of_ne hu]
  unique u e u' e' k hsome hsome' :=
    h.traced.unique u e u' e' k (h.target_close hf hsome).2 (h.target_close hf hsome').2
  nodup := by
    refine List.Nodup.append h.traced.nodup hended.nodup fun k hmem hmem' => ?_
    exact (h.traced.reported k hmem).2.2 t rest.length (hended.target k hmem').1
  reported k hmem := by
    rcases List.mem_append.1 hmem with hmem | hmem
    · obtain ⟨hlt, hlive, hno⟩ := h.traced.reported k hmem
      exact ⟨hlt, hlive, fun u e hsome => hno u e (h.target_close hf hsome).2⟩
    · -- Only the call that ends was aimed at what it gives out.
      obtain ⟨hsome, hlive⟩ := hended.target k hmem
      refine ⟨(h.traced.target _ _ k hsome).2, hlive, fun u e hsome' => ?_⟩
      obtain ⟨hplace, hold⟩ := h.target_close hf hsome'
      obtain ⟨rfl, rfl⟩ := h.traced.unique _ _ _ _ k hold hsome
      exact Nat.lt_irrefl _ (hplace rfl)
  all k hlt := by
    rcases h.traced.all k hlt with hmem | hcancelled | ⟨u, e, hsome⟩
    · exact Or.inl (List.mem_append_left _ hmem)
    · exact Or.inr (Or.inl hcancelled)
    · by_cases hplace : u = t ∧ e = rest.length
      · obtain ⟨rfl, rfl⟩ := hplace
        rcases hended.all k hsome with hmem | hcancelled
        · exact Or.inl (List.mem_append_right _ hmem)
        · exact Or.inr (Or.inl hcancelled)
      · refine Or.inr (Or.inr ⟨u, e, (g.aim_of_ne none fun hu he => ?_).trans hsome⟩)
        exact hplace ⟨hu, he⟩

omit hended in
theorem Inv.counted_replies
    (huncounted : ∀ k, stage.uncounted = some k → (l.holders k).phase = .cancelled) :
    Counted (g.close t rest.length ended) ((l.put t rest).append ⟨caller, call, a⟩) := by
  refine ⟨h.counted.nodup, h.counted.bound, fun k hmem => ?_, h.counted.total⟩
  obtain ⟨u, f, hf', hreset, hsome⟩ := h.counted.place k hmem
  rcases mem_update_append hf [] hf' with ⟨-, rfl⟩ | hmem'
  · exact absurd (huncounted k hsome) (h.sound.live k (h.counted.bound k hmem))
  · exact ⟨u, f, hmem', hreset, hsome⟩

theorem Inv.told_replies (hanswers : call.Answers (g.ties l t rest.length call) l a) :
    Told (g.close t rest.length ended) ((l.put t rest).append ⟨caller, call, a⟩) := by
  refine ⟨?_, ?_⟩
  · show List.Forall₂ _ ((l.log ++ [Reply.mk caller call a]).filter Reply.resets) _
    rw [List.filter_append]
    exact List.rel_append h.told.resets hended.resets
  · have hcount : (l.log ++ [Reply.mk caller call a]).countP Reply.cancels =
        l.log.countP Reply.cancels + if (Reply.mk caller call a).cancels then 1 else 0 := by
      rw [List.countP_append, List.countP_singleton]
    show (l.log ++ [Reply.mk caller call a]).countP Reply.cancels = 0 ∨
      (l.log ++ [Reply.mk caller call a]).countP Reply.cancels = 1 ∧ _
    rw [hcount]
    cases hcancels : (Reply.mk caller call a).cancels with
    | false =>
      rcases h.told.cancels with hzero | ⟨hone, hcancelled, hno⟩
      · exact Or.inl hzero
      · exact Or.inr ⟨hone, hcancelled, fun u e hsome => hno u e (h.target_close hf hsome).2⟩
    | true =>
      obtain ⟨k, hsome, hcurrent, hcancelled⟩ := h.cancelled_of_cancels hanswers hcancels
      have hzero := h.told.cancels.resolve_right fun hno => hno.2.2 t rest.length (hcurrent ▸ hsome)
      refine Or.inr ⟨congrArg (· + 1) hzero, hcancelled, fun u e hsome' => ?_⟩
      obtain ⟨hplace, hold⟩ := h.target_close hf hsome'
      obtain ⟨rfl, rfl⟩ := h.traced.unique _ _ _ _ _ hold (hcurrent ▸ hsome)
      exact Nat.lt_irrefl _ (hplace rfl)

/-- The innermost call of a thread ends. -/
theorem Inv.replies (hanswers : call.Answers (g.ties l t rest.length call) l a)
    (huncounted : ∀ k, stage.uncounted = some k → (l.holders k).phase = .cancelled) :
    Inv initializer (g.close t rest.length ended) ((l.put t rest).append ⟨caller, call, a⟩) :=
  ⟨h.seated_replies hf, h.sound.same rfl rfl rfl rfl rfl, h.traced_replies hf hended,
    h.counted_replies hf huncounted, h.told_replies hf hended hanswers⟩

end Replies

end SharedCells.Lazy
