import Mathlib.Data.List.Induction
import SharedCells.Proofs.Lazy.Generations.Invariant

/-!
# Calls on a resettable reference, from their begin to their end

An `Episode` is one call: a state in which it has just begun, the turns while it is being made,
and the turn that ends it with an answer. A call for a value gets that of a generation which was
current while it was made (`Episode.gives`).
-/

namespace SharedCells.Lazy

variable {T E : Type} {initializer : Nat → Routine T E} {g : Ledger} {l l' : Lineage T E}
  {s : System T E} {t : Nat} {call : Call} {rest : List (Frame T E)} {turns : List Turn}
  {last : Turn} {a : Answer T E}

/-! ## Runs -/

theorem Inv.step (h : Inv initializer g s.lineage) (hwatch : ∀ u d, g.watch u d s.current)
    (hduring : ∀ run, ∀ c ∈ (initializer run).during, c.Renews) (turn : Turn) :
    ∃ g', Inv initializer g' (s.step initializer turn).lineage ∧ g'.watch = g.watch :=
  h.advances hwatch hduring (h.step_advances hwatch turn)

/-- The holders that the call at a place may come upon are told anew, while the call has come upon
none. -/
theorem Inv.rewatch (h : Inv initializer g l) (hf : l.frames t = ⟨call, .start⟩ :: rest)
    {watch : Nat → Nat → Nat → Prop}
    (hwatch : ∀ u d, (u = t → d ≠ rest.length) → ∀ k, watch u d k) :
    Inv initializer { g with watch } l where
  seated := by
    refine ⟨h.seated.calls, fun u => ?_, h.seated.nested⟩
    have hkeep : ∀ u d, (u = t → d ≠ rest.length) → ∀ f : Frame T E, f.Sits initializer g l u d →
        f.Sits initializer { g with watch } l u d := by
      intro u d hplace f hsits
      refine ⟨hsits.renews, hsits.free, hsits.allowed.mono ?_ (.same rfl rfl rfl)
        (fun _ _ => ⟨rfl, rfl⟩), hsits.owns⟩
      exact ⟨fun k hnear => ⟨hnear.1, hwatch u d hplace k, hnear.2.2⟩, id, fun _ => id⟩
    have hold : l.frames t = [⟨call, .start⟩] ++ rest := hf
    have hsame : l.frames = Function.update l.frames t ([⟨call, .start⟩] ++ rest) := by
      rw [← hold, Function.update_eq_self]
    refine Stacked.change h.seated.frames hold hsame
      (fun u d hplace => hkeep u d fun hu => Nat.ne_of_lt (hplace hu)) (fun hrest => ⟨?_, hrest⟩) u
    have hsits := h.head hf
    exact ⟨hsits.renews, hsits.free, hsits.allowed, hsits.owns⟩
  sound := h.sound.same rfl rfl rfl rfl rfl
  traced := ⟨h.traced.target, h.traced.unique, h.traced.nodup, h.traced.reported, h.traced.all⟩
  counted := ⟨h.counted.nodup, h.counted.bound, h.counted.place, h.counted.total⟩
  told := ⟨h.told.resets, h.told.cancels⟩

/-- A reference that has been used, after some schedule. -/
def Reached (initializer : Nat → Routine T E) (s : System T E) : Prop :=
  ∃ g : Ledger, Inv initializer g s.lineage ∧ ∀ u d k, g.watch u d k

theorem Reached.step (h : Reached initializer s)
    (hduring : ∀ run, ∀ c ∈ (initializer run).during, c.Renews) (turn : Turn) :
    Reached initializer (s.step initializer turn) := by
  obtain ⟨g, hinv, hwatch⟩ := h
  obtain ⟨g', hinv', hsame⟩ := hinv.step (fun u d => hwatch u d _) hduring turn
  exact ⟨g', hinv', hsame ▸ hwatch⟩

theorem Reached.run (h : Reached initializer s)
    (hduring : ∀ run, ∀ c ∈ (initializer run).during, c.Renews) (schedule : List Turn) :
    Reached initializer (s.run initializer schedule) := by
  induction schedule generalizing s with
  | nil => exact h
  | cons turn schedule ih => exact ih (h.step hduring turn)

theorem Reached.advances (h : Reached initializer s) (turn : Turn) :
    ∃ g, Inv initializer g s.lineage ∧
      Advances initializer (g.headTies s.lineage turn.mover) s.lineage turn.mover
        (s.step initializer turn).lineage := by
  obtain ⟨g, hinv, hwatch⟩ := h
  exact ⟨g, hinv, hinv.step_advances (fun u d => hwatch u d _) turn⟩

/-- A thread that does not move makes the calls that it made. -/
theorem Advances.frames_of_ne {ties : Ties} {mover : Nat}
    (hadvances : Advances initializer ties l mover l') (hne : t ≠ mover) :
    l'.frames t = l.frames t := by
  cases hadvances with
  | stays => rfl
  | @replies call stage a rest =>
    obtain ⟨log, hreply, -⟩ := l.reply_eq mover rest call a
    rw [hreply]
    exact Function.update_of_ne hne ..
  | _ => exact Function.update_of_ne hne ..

/-- What an advance does to the current holder: nothing, unless a call replaces it. -/
theorem Advances.current {ties : Ties} {mover : Nat}
    (hadvances : Advances initializer ties l mover l') : l'.current = l.current ∨
      ∃ call rest, call.Replaces ∧ l.frames mover = ⟨call, .swapping l.current false⟩ :: rest ∧
        l'.current = l.installed ∧ l'.holders l.installed = System.replacement call := by
  cases hadvances with
  | @replies call stage a rest =>
    obtain ⟨log, hreply, -⟩ := l.reply_eq mover rest call a
    rw [hreply]
    exact Or.inl rfl
  | replaces hreplaces hf =>
    exact Or.inr ⟨_, _, hreplaces, hf, rfl, l.holders_install_self _⟩
  | _ => exact Or.inl rfl

/-- A reference that is cancelled stays so. -/
theorem Reached.stays (hs : Reached initializer s)
    (hcancelled : (s.holder s.current).phase = .cancelled) (turn : Turn) :
    (s.step initializer turn).current = s.current ∧
      ((s.step initializer turn).holder s.current).phase = .cancelled := by
  obtain ⟨g, hinv, hadvances⟩ := hs.advances turn
  refine ⟨?_, (hinv.later hadvances).cancelled s.current hcancelled⟩
  rcases hadvances.current with hsame | ⟨call, rest, -, hf, -⟩
  · exact hsame
  · exact absurd hcancelled (hinv.replaced_live hf)

/-! ## Episodes -/

/-- A call above some frames of a thread goes on, and it ends in the last turn. -/
structure Finishes (initializer : Nat → Routine T E) (s : System T E) (t : Nat) (call : Call)
    (rest : List (Frame T E)) (turns : List Turn) (last : Turn) (a : Answer T E) : Prop where
  /-- It has not ended before the last turn. -/
  lasts : ∀ before, before <+: turns →
    rest.length < ((s.run initializer before).thread t).frames.length
  /-- It has ended then. -/
  ends : ((s.run initializer (turns ++ [last])).thread t).frames.length ≤ rest.length
  answers : ∃ caller, (s.run initializer (turns ++ [last])).log =
    (s.run initializer turns).log ++ [⟨caller, call, a⟩]

/-- A thread makes one call. -/
structure Episode (initializer : Nat → Routine T E) (s : System T E) (t : Nat) (call : Call)
    (rest : List (Frame T E)) (turns : List Turn) (last : Turn) (a : Answer T E) : Prop
    extends Finishes initializer s t call rest turns last a where
  /-- The call has just begun. -/
  begins : (s.thread t).frames = ⟨call, .start⟩ :: rest

theorem Finishes.cons {turn : Turn} (hlong : rest.length < (s.thread t).frames.length)
    (h : Finishes initializer (s.step initializer turn) t call rest turns last a) :
    Finishes initializer s t call rest (turn :: turns) last a where
  lasts before hbefore := by
    cases before with
    | nil => exact hlong
    | cons turn' before =>
      obtain ⟨rfl, hbefore'⟩ := List.cons_prefix_cons.1 hbefore
      exact h.lasts before hbefore'
  ends := h.ends
  answers := h.answers

/-- A stack that gets shorter is that of a thread whose innermost call ends. -/
theorem Advances.ends {ties : Ties} {mover d : Nat}
    (hadvances : Advances initializer ties l mover l') (hlong : d < (l.frames t).length)
    (hshort : (l'.frames t).length ≤ d) :
    mover = t ∧ ∃ call stage a rest, l.frames t = ⟨call, stage⟩ :: rest ∧ rest.length = d ∧
      call.Answers ties l a ∧ l' = l.reply t rest call a := by
  -- No other advance makes a stack shorter.
  have hno : ∀ l'' : Lineage T E, (l''.frames t).length ≤ d → ∀ fs : List (Frame T E),
      l''.frames = Function.update l.frames mover fs → (l.frames mover).length ≤ fs.length →
        False := by
    intro l'' hshort fs hframes hle
    rw [hframes] at hshort
    by_cases hmover : t = mover
    · subst hmover
      rw [Function.update_self] at hshort
      omega
    · rw [Function.update_of_ne hmover] at hshort
      omega
  have hgoes : ∀ l'' : Lineage T E, (l''.frames t).length ≤ d → ∀ (f f' : Frame T E)
      (rest : List (Frame T E)), l.frames mover = f :: rest →
        l''.frames = Function.update l.frames mover (f' :: rest) → False := by
    intro l'' hshort f f' rest hf hframes
    exact hno l'' hshort _ hframes (by rw [hf]; exact Nat.le_refl _)
  cases hadvances with
  | stays => omega
  | begins hf hcalls => exact (hno _ hshort _ rfl (by rw [hf]; exact Nat.zero_le _)).elim
  | nests hf => exact (hno _ hshort _ rfl (by rw [hf]; exact Nat.le_succ _)).elim
  | passes hf => exact (hgoes _ hshort _ _ _ hf rfl).elim
  | @replies call stage a rest hf hclaimed hanswers huncounted =>
    obtain ⟨log, hreply, -⟩ := l.reply_eq mover rest call a
    have hframes : (l.reply mover rest call a).frames = Function.update l.frames mover rest := by
      rw [hreply]
      rfl
    rw [hframes] at hshort
    by_cases hmover : t = mover
    · subst hmover
      rw [Function.update_self] at hshort
      rw [hf, List.length_cons] at hlong
      exact ⟨rfl, call, stage, a, rest, hf, by omega, hanswers, rfl⟩
    · rw [Function.update_of_ne hmover] at hshort
      omega
  | claims hf => exact (hgoes _ hshort _ _ _ hf rfl).elim
  | handsBack hf => exact (hgoes _ hshort _ _ _ hf rfl).elim
  | enters hf => exact (hgoes _ hshort _ _ _ hf rfl).elim
  | concludes hf => exact (hgoes _ hshort _ _ _ hf rfl).elim
  | publishes hf => exact (hgoes _ hshort _ _ _ hf rfl).elim
  | completes hf => exact (hgoes _ hshort _ _ _ hf rfl).elim
  | replaces hreplaces hf => exact (hgoes _ hshort _ _ _ hf rfl).elim
  | counts hf => exact (hgoes _ hshort _ _ _ hf rfl).elim
  | retires hf => exact (hgoes _ hshort _ _ _ hf rfl).elim

/-- The reply in the last turn of an episode is that of its call. -/
theorem Episode.reply_eq {call' : Call} {stage : Stage T E} {rest' : List (Frame T E)}
    {a' : Answer T E} (h : Episode initializer s t call rest turns last a)
    (hinv : Inv initializer g (s.run initializer turns).lineage)
    (hf : ((s.run initializer turns).thread t).frames = ⟨call', stage⟩ :: rest')
    (hreply : (s.run initializer (turns ++ [last])).lineage =
      (s.run initializer turns).lineage.reply t rest' call' a') : call' = call ∧ a' = a := by
  obtain ⟨caller', hcaller⟩ := callerOf_of_runs t (hinv.nested hf)
  rw [Lineage.reply, hcaller] at hreply
  obtain ⟨caller, hlog⟩ := h.answers
  have hsame : (s.run initializer turns).log ++ [Reply.mk caller' call' a'] =
      (s.run initializer turns).log ++ [Reply.mk caller call a] :=
    (congrArg Lineage.log hreply).symm.trans hlog
  exact (Reply.mk.inj (List.singleton_inj.1 (List.append_cancel_left hsame))).2

/-- The call that ends in the last turn of an episode. -/
theorem Episode.last_answers {ties : Ties} {mover : Nat}
    (h : Episode initializer s t call rest turns last a)
    (hinv : Inv initializer g (s.run initializer turns).lineage)
    (hadvances : Advances initializer ties (s.run initializer turns).lineage mover
      (s.run initializer (turns ++ [last])).lineage) :
    mover = t ∧ ∃ stage rest',
      ((s.run initializer turns).thread t).frames = ⟨call, stage⟩ :: rest' ∧
      rest'.length = rest.length ∧ call.Answers ties (s.run initializer turns).lineage a := by
  obtain ⟨hmover, call', stage, a', rest', hf, hlength, hanswers, hreply⟩ :=
    hadvances.ends (h.lasts turns List.prefix_rfl) h.ends
  obtain ⟨rfl, rfl⟩ := h.reply_eq hinv hf hreply
  exact ⟨hmover, stage, rest', hf, hlength, hanswers⟩

/-- A call for a value gets that of a generation which was current while the call was made, unless
it was interrupted. -/
theorem Episode.gives {policy : Policy}
    (h : Episode initializer s t (.get policy) rest turns last a) (hs : Reached initializer s)
    (hduring : ∀ run, ∀ c ∈ (initializer run).during, c.Renews) :
    (policy.interruptible = true ∧ a = .outcome (.error .interrupted)) ∨
      ∃ before, before <+: turns ∧
        ((s.run initializer turns).holder (s.run initializer before).current).Gives a := by
  obtain ⟨g, hinv, -⟩ := hs
  -- The call is watched: it may only come upon generations that are current in the meantime.
  let watch : Nat → Nat → Nat → Prop := fun u d k => u = t → d = rest.length →
    ∃ before, before <+: turns ∧ (s.run initializer before).current = k
  have hwatched : ∀ before, before <+: turns →
      ∃ g', Inv initializer g' (s.run initializer before).lineage ∧ g'.watch = watch := by
    intro before
    induction before using List.reverseRecOn with
    | nil =>
      intro _
      exact ⟨_, hinv.rewatch h.begins fun u d hplace k hu hd => absurd hd (hplace hu), rfl⟩
    | append_singleton before turn ih =>
      intro hinitial
      have hbefore : before <+: turns := (List.prefix_append before [turn]).trans hinitial
      obtain ⟨g', hinv', hsame⟩ := ih hbefore
      obtain ⟨g'', hinv'', hsame'⟩ := hinv'.step (fun u d => by
        rw [hsame]
        exact fun _ _ => ⟨before, hbefore, rfl⟩) hduring turn
      rw [System.run_append]
      exact ⟨g'', hinv'', hsame'.trans hsame⟩
  obtain ⟨g', hinv', hsame⟩ := hwatched turns List.prefix_rfl
  have hadvances := hinv'.step_advances (fun u d => by
    rw [hsame]
    exact fun _ _ => ⟨turns, List.prefix_rfl, rfl⟩) last
  have hlast : s.run initializer (turns ++ [last]) =
      (s.run initializer turns).step initializer last := s.run_append ..
  obtain ⟨hmover, stage, rest', hf, hlength, hanswers⟩ := h.last_answers hinv' (hlast ▸ hadvances)
  rw [hmover, g'.headTies_eq hf] at hanswers
  rcases hanswers with hinterrupted | ⟨k, hnear, hgives⟩
  · exact Or.inl hinterrupted
  · have hwatch := hnear.2.1
    rw [hsame] at hwatch
    obtain ⟨before, hbefore, rfl⟩ := hwatch rfl hlength
    exact Or.inr ⟨before, hbefore, hgives⟩

end SharedCells.Lazy
