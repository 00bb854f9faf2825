import SharedCells.Proofs.Json.Scalars

/-!
# Documents are read back

Lists and objects of what can be read back are read back, and so are the documents that hold one
of them or one text.

* `Reads.parts` is the induction on the parts; `Reads.enclosed` is what it comes to between two
  marks.
* `reads_list`, `reads_object`: the two kinds of compound values.
* `Reads.document`: a document that holds one value.
-/

namespace SharedCells.Json

variable {α : Type}

/-! ## Blanks and marks -/

theorem skipBlanks_cons {c : Char} (h : isBlank c = false) (rest : List Char) :
    skipBlanks (c :: rest) = c :: rest :=
  List.dropWhile_cons_of_neg (by simp [h])

/-- The marks at the end of a list and of an object. -/
def Closing (c : Char) : Prop := c = ']' ∨ c = '\x7d'

section Closing

variable {c : Char} (h : Closing c)

include h

theorem Closing.stops (rest : List Char) : Stops (c :: rest) := by
  rcases h with rfl | rfl <;> exact stops_cons rfl rest

theorem Closing.skipBlanks (rest : List Char) : skipBlanks (c :: rest) = c :: rest := by
  rcases h with rfl | rfl <;> exact skipBlanks_cons rfl rest

theorem Closing.ne_comma : ',' ≠ c := by
  rcases h with rfl | rfl <;> decide

theorem Closing.ne_opening {d : Char} (hd : Opening d) : d ≠ c := by
  rcases h with rfl | rfl
  · exact hd.2.1
  · exact hd.2.2

end Closing

/-! ## Parts -/

theorem joined_cons (p : List Char) (ps : List (List Char)) :
    joined (p :: ps) = p ++ ps.flatMap fun q => ',' :: q := by
  induction ps generalizing p with
  | nil => simp [joined]
  | cons q ps ih =>
    have hcomma : joined (p :: q :: ps) = p ++ ',' :: joined (q :: ps) := by
      simp [joined, List.intercalate_cons_cons]
    rw [hcomma, ih q]
    rfl

section Parts

variable {part : Reader α} {write : α → List Char} (h : Reads part write)

include h

theorem Reads.skipBlanks (a : α) (rest : List Char) :
    skipBlanks (write a ++ rest) = write a ++ rest := by
  obtain ⟨c, cs, hwrite, hopening⟩ := h.opens a
  rw [hwrite, List.cons_append, skipBlanks_cons hopening.1]

/-- Reading parts undoes writing them; `bound` has to reach as far as there are parts. -/
theorem Reads.parts {closing : Char} (hclosing : Closing closing) (a : α) (as : List α)
    {bound : Nat} (hbound : as.length < bound) (rest : List Char) :
    readParts part closing bound
        (write a ++ ((as.flatMap fun b => ',' :: write b) ++ closing :: rest)) =
      some (a :: as, rest) := by
  induction as generalizing a bound with
  | nil =>
    obtain ⟨bound, rfl⟩ := Nat.exists_eq_succ_of_ne_zero (Nat.ne_of_gt hbound)
    rw [List.flatMap_nil, List.nil_append, readParts, h.reads a (hclosing.stops rest)]
    simp only [hclosing.skipBlanks, if_true]
  | cons b as ih =>
    obtain ⟨bound, rfl⟩ := Nat.exists_eq_succ_of_ne_zero (Nat.ne_zero_of_lt hbound)
    have hlater : as.length < bound := by simpa using hbound
    have hrest := ih b hlater
    rw [List.flatMap_cons, List.cons_append, List.cons_append, List.append_assoc, readParts,
      h.reads a (stops_cons rfl _)]
    simp only [skipBlanks_cons (c := ',') rfl, if_neg hclosing.ne_comma, if_true, h.skipBlanks,
      hrest, Option.map_some]

/-- Parts between two marks. -/
theorem Reads.enclosed {opening closing : Char} (hopening : Opening opening)
    (hclosing : Closing closing) :
    Reads (readEnclosed part opening closing) fun as =>
      opening :: (joined (as.map write) ++ [closing]) where
  opens as := ⟨opening, _, rfl, hopening⟩
  reads as rest _ := by
    cases as with
    | nil =>
      have hempty : opening :: (joined ((([] : List α)).map write) ++ [closing]) ++ rest =
          opening :: closing :: rest := rfl
      rw [hempty, readEnclosed, if_pos rfl, hclosing.skipBlanks]
      exact if_pos rfl
    | cons a as =>
      have hlength : as.length ≤ (as.flatMap fun b => ',' :: write b).length := by
        induction as with
        | nil => exact Nat.le_refl _
        | cons b as ih =>
          rw [List.flatMap_cons, List.length_append, List.length_cons, List.length_cons]
          omega
      have hbound : as.length <
          (write a ++ ((as.flatMap fun b => ',' :: write b) ++ closing :: rest)).length := by
        simp only [List.length_append, List.length_cons]
        omega
      have hparts := h.parts hclosing a as hbound rest
      have hwritten : opening :: (joined ((a :: as).map write) ++ [closing]) ++ rest =
          opening :: (write a ++ ((as.flatMap fun b => ',' :: write b) ++ closing :: rest)) := by
        rw [List.map_cons, joined_cons, List.flatMap_map]
        simp only [List.cons_append, List.append_assoc, List.nil_append]
      rw [hwritten, readEnclosed, if_pos rfl, h.skipBlanks]
      obtain ⟨c, cs, hwrite, hc⟩ := h.opens a
      rw [hwrite, List.cons_append] at hparts ⊢
      simp only [if_neg (hclosing.ne_opening hc)]
      exact hparts

/-- A document that holds one value. -/
theorem Reads.document (a : α) : readDocument part (String.ofList (write a)) = some a := by
  have hstops : Stops [] := fun _ hc => nomatch hc
  have hread := h.reads a hstops
  have hskip := h.skipBlanks a []
  rw [List.append_nil] at hread hskip
  rw [readDocument, String.toList_ofList, hskip, hread]
  rfl

end Parts

/-! ## Lists and objects -/

theorem reads_list [Item α] [LawfulItem α] : Reads (readList : Reader (List α)) writeList :=
  LawfulItem.reads.enclosed ⟨rfl, by decide, by decide⟩ (.inl rfl)

variable {K V : Type} [Key K] [LawfulKey K] [Item V] [LawfulItem V]

theorem reads_member : Reads (readMember : Reader (K × V)) writeMember where
  opens e := by
    obtain ⟨c, cs, hwrite, hopening⟩ := LawfulKey.reads.opens e.1
    exact ⟨c, _, by rw [writeMember, hwrite]; rfl, hopening⟩
  reads e rest hrest := by
    rw [writeMember, List.append_assoc, List.cons_append, readMember,
      LawfulKey.reads.reads e.1 (stops_cons (c := ':') rfl _)]
    simp only [skipBlanks_cons (c := ':') rfl, LawfulItem.reads.skipBlanks,
      LawfulItem.reads.reads e.2 hrest, Option.map_some]

theorem reads_object : Reads (readObject : Reader (List (K × V))) writeObject :=
  reads_member.enclosed ⟨rfl, by decide, by decide⟩ (.inr rfl)

end SharedCells.Json
