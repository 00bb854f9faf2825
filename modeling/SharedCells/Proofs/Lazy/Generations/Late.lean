import SharedCells.Proofs.Lazy.Generations.Episodes

/-!
# Calls that come too late

A call that begins when the reference is cancelled is refused (`Episode.answer_late`), and it
changes nothing (`Episode.unchanged_late`). It does not wait: `Stage.left` bounds the turns that
its thread has yet to take (`Reached.refuses`).
-/

namespace SharedCells.Lazy

variable {T E : Type} {initializer : Nat → Routine T E} {l l' : Lineage T E} {s : System T E}
  {t : Nat} {call : Call} {stage : Stage T E} {rest : List (Frame T E)} {turns : List Turn}
  {last : Turn} {a : Answer T E}

/-! ## Turns -/

/-- The calls that a cancelled reference refuses. -/
def Call.Refused : Call → Prop
  | get policy => policy.leaveOnRetire = true
  | reset | cancel => True
  | _ => False

/-- Where a call may stand that began when the reference was cancelled. -/
def Stage.Late (current : Nat) (call : Call) : Stage T E → Prop
  | start => True
  | peeking h | entering h | checking h | choosing h => call.Looks ∧ h = current
  | testing h | swapped h => call.Replaces ∧ h = current
  | swapping h keeps => call.Replaces ∧ h = current ∧ keeps = true
  | _ => False

/-- How many turns such a call takes at most until it ends. -/
def Stage.left : Stage T E → Nat
  | start => 5
  | peeking _ => 4
  | entering _ | testing _ => 3
  | checking _ | swapping _ _ => 2
  | _ => 1

theorem Stage.left_pos (stage : Stage T E) : 0 < stage.left := by
  cases stage <;> exact Nat.succ_pos _

/-- A call that is too late comes nearer to its end, or it is refused. -/
def Refuses (l : Lineage T E) (t : Nat) (call : Call) (stage : Stage T E)
    (rest : List (Frame T E)) (l' : Lineage T E) : Prop :=
  (∃ stage' : Stage T E, stage'.Late l.current call ∧ stage'.left < stage.left ∧
    l' = l.put t (⟨call, stage'⟩ :: rest)) ∨
  l' = l.reply t rest call (System.tooLate call)

theorem Refuses.unchanged (h : Refuses l t call stage rest l') :
    l'.current = l.current ∧ l'.generation = l.generation ∧ l'.runs = l.runs := by
  rcases h with ⟨stage', -, -, rfl⟩ | rfl
  · exact ⟨rfl, rfl, rfl⟩
  · obtain ⟨log, hreply, -⟩ := l.reply_eq t rest call (System.tooLate call)
    rw [hreply]
    exact ⟨rfl, rfl, rfl⟩

theorem goTo_refuses (hf : (s.thread t).frames = ⟨call, stage⟩ :: rest) {stage' : Stage T E}
    (hlate : stage'.Late s.current call) (hleft : stage'.left < stage.left) :
    Refuses s.lineage t call stage rest (s.goTo t stage').lineage :=
  Or.inl ⟨stage', hlate, hleft, s.lineage_goTo hf stage'⟩

/-- The reference is cancelled, and the innermost call of a thread stands where it is too late. -/
structure LateAt (s : System T E) (t : Nat) (call : Call) (stage : Stage T E)
    (rest : List (Frame T E)) : Prop where
  refused : call.Refused
  cancelled : (s.holder s.current).phase = .cancelled
  late : stage.Late s.current call
  head : (s.thread t).frames = ⟨call, stage⟩ :: rest

theorem LateAt.advance (h : LateAt s t call stage rest)
    (hnone : (s.holder s.current).outcome = none)
    (hretired : (s.holder s.current).retired = false) :
    Refuses s.lineage t call stage rest (s.advance initializer t call stage).lineage := by
  obtain ⟨hrefused, hcancelled, hlate, hf⟩ := h
  have hyes : (s.holder s.current).isCancelled = true := decide_eq_true hcancelled
  cases stage with
  | start =>
    cases call with
    | get policy => exact goTo_refuses hf ⟨trivial, rfl⟩ (by simp [Stage.left])
    | reset => exact goTo_refuses hf ⟨trivial, rfl⟩ (by simp [Stage.left])
    | cancel => exact goTo_refuses hf ⟨trivial, rfl⟩ (by simp [Stage.left])
    | _ => cases hrefused
  | peeking h =>
    obtain ⟨hlooks, rfl⟩ := hlate
    have hpeek : (s.holder s.current).peek = none := by rw [Holder.peek, hnone]
    cases call with
    | get policy =>
      simp only [System.advance, Holder.observe, hpeek, Option.map_none]
      exact goTo_refuses hf ⟨hlooks, rfl⟩ (by simp [Stage.left])
    | reset | cancel => cases hlooks
    | _ => cases hrefused
  | entering h =>
    obtain ⟨hlooks, rfl⟩ := hlate
    simp only [System.advance, hnone]
    split
    · exact goTo_refuses hf ⟨hlooks, rfl⟩ (by simp [Stage.left])
    · exact goTo_refuses hf ⟨hlooks, rfl⟩ (by simp [Stage.left])
  | checking h =>
    obtain ⟨hlooks, rfl⟩ := hlate
    simp only [System.advance, hretired, Bool.false_eq_true, if_false]
    exact goTo_refuses hf ⟨hlooks, rfl⟩ (by simp [Stage.left])
  | choosing h =>
    obtain ⟨hlooks, rfl⟩ := hlate
    have htooLate : System.tooLate call = (.outcome (.error .cancelled) : Answer T E) := by
      cases call with
      | cancel => cases hlooks
      | _ => rfl
    simp only [System.advance, hcancelled]
    rw [← htooLate]
    exact Or.inr (s.lineage_answer hf _)
  | testing h =>
    obtain ⟨hreplaces, rfl⟩ := hlate
    simp only [System.advance, hyes]
    exact goTo_refuses hf ⟨hreplaces, rfl, rfl⟩ (by simp [Stage.left])
  | swapping h keeps =>
    obtain ⟨hreplaces, rfl, rfl⟩ := hlate
    simp only [System.advance, if_true]
    exact goTo_refuses hf ⟨hreplaces, rfl⟩ (by simp [Stage.left])
  | swapped h =>
    obtain ⟨hreplaces, rfl⟩ := hlate
    simp only [System.advance, hyes, if_true]
    exact Or.inr (s.lineage_answer hf _)
  | _ => exact hlate.elim

/-- A turn of the thread itself, and not something that happens to it. -/
def Turn.isStep (t : Nat) : Turn → Bool
  | thread u => decide (u = t)
  | _ => false

/-- What a turn does with a call that is too late. -/
theorem LateAt.moves (h : LateAt s t call stage rest) (hs : Reached initializer s)
    {turn : Turn} (hmover : turn.mover = t) :
    (turn.isStep t = false ∧ (s.step initializer turn).lineage = s.lineage) ∨
      Refuses s.lineage t call stage rest (s.step initializer turn).lineage := by
  obtain ⟨g, hinv, -⟩ := hs
  have hadvance :
      Refuses s.lineage t call stage rest (s.advance initializer t call stage).lineage :=
    h.advance ((hinv.sound.holders s.current).cancelled h.cancelled) hinv.sound.retired
  obtain ⟨-, -, hlate, hf⟩ := h
  subst hmover
  cases turn with
  | thread u =>
    have hf' : (s.thread u).frames = ⟨call, stage⟩ :: rest := hf
    rw [System.step, System.stepThread, hf']
    exact Or.inr hadvance
  | claimFails u =>
    have hf' : (s.thread u).frames = ⟨call, stage⟩ :: rest := hf
    rw [System.step, hf']
    cases stage with
    | claiming h => exact hlate.elim
    | _ => exact Or.inl ⟨rfl, rfl⟩
  | wakes u =>
    have hf' : (s.thread u).frames = ⟨call, stage⟩ :: rest := hf
    rw [System.step, hf']
    cases stage with
    | parked h => exact hlate.elim
    | _ => exact Or.inl ⟨rfl, rfl⟩
  | opens gate => exact Or.inl ⟨rfl, rfl⟩

/-- A turn brings a call that is too late nearer to its end, if it is a turn of its thread. -/
theorem LateAt.step (h : LateAt s t call stage rest) (hs : Reached initializer s) (turn : Turn) :
    (∃ stage' : Stage T E, LateAt (s.step initializer turn) t call stage' rest ∧
      stage'.left + (if turn.isStep t then 1 else 0) ≤ stage.left) ∨
    turn.mover = t ∧ (s.step initializer turn).lineage =
      s.lineage.reply t rest call (System.tooLate call) := by
  obtain ⟨hcurrent, hphase⟩ := hs.stays h.cancelled turn
  have hstands : ∀ stage' : Stage T E, stage'.Late s.current call →
      ((s.step initializer turn).thread t).frames = ⟨call, stage'⟩ :: rest →
        LateAt (s.step initializer turn) t call stage' rest := fun stage' hlate hf =>
    ⟨h.refused, by rw [hcurrent]; exact hphase, by rw [hcurrent]; exact hlate, hf⟩
  by_cases hmover : turn.mover = t
  · rcases h.moves hs hmover with ⟨hno, hsame⟩ | ⟨stage', hlate, hleft, hput⟩ | hreply
    · refine Or.inl ⟨stage, hstands stage h.late ?_, by simp [hno]⟩
      exact (congrFun (congrArg Lineage.frames hsame) t).trans h.head
    · refine Or.inl ⟨stage', hstands stage' hlate ?_, by split <;> omega⟩
      exact Lineage.frames_of_put hput
    · exact Or.inr ⟨hmover, hreply⟩
  · obtain ⟨g, -, hadvances⟩ := hs.advances turn
    have hno : turn.isStep t = false := by
      cases turn with
      | thread u => exact decide_eq_false hmover
      | _ => rfl
    refine Or.inl ⟨stage, hstands stage h.late ?_, by simp [hno]⟩
    exact (hadvances.frames_of_ne (Ne.symm hmover)).trans h.head

/-! ## Episodes -/

theorem frames_of_reply (h : l' = l.reply t rest call a) : l'.frames t = rest := by
  obtain ⟨log, heq, -⟩ := l.reply_eq t rest call a
  rw [h, heq]
  exact Function.update_self ..

section Episodes

variable (hs : Reached initializer s)
  (hduring : ∀ run, ∀ c ∈ (initializer run).during, c.Renews)

include hs hduring

theorem Episode.lateAt (h : Episode initializer s t call rest turns last a)
    (hrefused : call.Refused) (hcancelled : (s.holder s.current).phase = .cancelled)
    (before : List Turn) (hbefore : before <+: turns) :
    ∃ stage : Stage T E, LateAt (s.run initializer before) t call stage rest := by
  induction before using List.reverseRecOn with
  | nil => exact ⟨.start, hrefused, hcancelled, trivial, h.begins⟩
  | append_singleton before turn ih =>
    obtain ⟨stage, hlate⟩ := ih ((List.prefix_append before [turn]).trans hbefore)
    have hlasts := h.lasts _ hbefore
    rw [System.run_append] at hlasts ⊢
    rcases hlate.step (hs.run hduring before) turn with ⟨stage', hlate', -⟩ | ⟨-, hreply⟩
    · exact ⟨stage', hlate'⟩
    · have hframes : (((s.run initializer before).run initializer [turn]).thread t).frames =
          rest := frames_of_reply hreply
      rw [hframes] at hlasts
      exact absurd hlasts (Nat.lt_irrefl _)

/-- A call that begins when the reference is cancelled is refused. -/
theorem Episode.answer_late (h : Episode initializer s t call rest turns last a)
    (hrefused : call.Refused) (hcancelled : (s.holder s.current).phase = .cancelled) :
    a = System.tooLate call := by
  obtain ⟨stage, hlate⟩ := h.lateAt hs hduring hrefused hcancelled turns List.prefix_rfl
  have hreached := hs.run hduring turns
  obtain ⟨g, hinv, -⟩ := hreached.advances last
  have hlast : s.run initializer (turns ++ [last]) =
      (s.run initializer turns).step initializer last := s.run_append ..
  rcases hlate.step hreached last with ⟨stage', hlate', -⟩ | ⟨-, hreply⟩
  · have hends := h.ends
    rw [hlast, hlate'.head, List.length_cons] at hends
    exact absurd hends (Nat.not_succ_le_self _)
  · exact (h.reply_eq hinv hlate.head (hlast ▸ hreply)).2.symm

/-- A call that begins when the reference is cancelled changes nothing in any of its turns. -/
theorem Episode.unchanged_late (h : Episode initializer s t call rest turns last a)
    (hrefused : call.Refused) (hcancelled : (s.holder s.current).phase = .cancelled)
    (before : List Turn) (turn : Turn) (hinitial : before ++ [turn] <+: turns ++ [last])
    (hmover : turn.mover = t) :
    (s.run initializer (before ++ [turn])).current = (s.run initializer before).current ∧
      (s.run initializer (before ++ [turn])).generation =
        (s.run initializer before).generation ∧
      (s.run initializer (before ++ [turn])).runs = (s.run initializer before).runs := by
  have hbefore : before <+: turns := by
    refine List.prefix_of_prefix_length_le ((List.prefix_append before [turn]).trans hinitial)
      (List.prefix_append turns [last]) ?_
    have hlength := hinitial.length_le
    rw [List.length_append, List.length_append] at hlength
    exact Nat.le_of_succ_le_succ hlength
  obtain ⟨stage, hlate⟩ := h.lateAt hs hduring hrefused hcancelled before hbefore
  rw [System.run_append]
  rcases hlate.moves (hs.run hduring before) hmover with ⟨-, hsame⟩ | hrefuses
  · exact ⟨congrArg Lineage.current hsame, congrArg Lineage.generation hsame,
      congrArg Lineage.runs hsame⟩
  · exact hrefuses.unchanged

omit hs in
/-- A call that is too late ends once its thread has taken the turns that it has left. -/
theorem LateAt.finishes (hs : Reached initializer s) (h : LateAt s t call stage rest)
    (more : List Turn) (hmore : stage.left ≤ more.countP (Turn.isStep t)) :
    ∃ turns last after, more = turns ++ last :: after ∧
      Finishes initializer s t call rest turns last (System.tooLate call) := by
  induction more generalizing s stage with
  | nil => exact absurd hmore (Nat.not_le_of_gt stage.left_pos)
  | cons turn more ih =>
    have hlong : rest.length < (s.thread t).frames.length := by
      rw [h.head]
      exact Nat.lt_succ_self _
    rw [List.countP_cons] at hmore
    rcases h.step hs turn with ⟨stage', hlate, hleft⟩ | ⟨-, hreply⟩
    · obtain ⟨turns, last, after, rfl, hfinishes⟩ := ih (hs.step hduring turn) hlate (by omega)
      exact ⟨turn :: turns, last, after, rfl, hfinishes.cons hlong⟩
    · refine ⟨[], turn, more, rfl, ?_,
        Nat.le_of_eq (congrArg List.length (frames_of_reply hreply)), ?_⟩
      · intro before hbefore
        rw [List.prefix_nil.1 hbefore]
        exact hlong
      · obtain ⟨g, hinv, -⟩ := hs
        obtain ⟨caller, hcaller⟩ := callerOf_of_runs t (hinv.nested h.head)
        rw [Lineage.reply, hcaller] at hreply
        exact ⟨caller, congrArg Lineage.log hreply⟩

/-- A call that begins when the reference is cancelled ends within five turns of its thread. -/
theorem Reached.refuses (hf : (s.thread t).frames = ⟨call, .start⟩ :: rest)
    (hrefused : call.Refused) (hcancelled : (s.holder s.current).phase = .cancelled)
    (more : List Turn) (hmore : 5 ≤ more.countP (Turn.isStep t)) :
    ∃ turns last after, more = turns ++ last :: after ∧
      Episode initializer s t call rest turns last (System.tooLate call) := by
  have hlate : LateAt s t call .start rest := ⟨hrefused, hcancelled, trivial, hf⟩
  obtain ⟨turns, last, after, hsplit, hfinishes⟩ := hlate.finishes hduring hs more hmore
  exact ⟨turns, last, after, hsplit, hfinishes, hf⟩

end Episodes

end SharedCells.Lazy
