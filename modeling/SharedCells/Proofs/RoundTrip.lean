import SharedCells.Proofs.Json.Documents
import SharedCells.Proofs.Store.Rebuilt
import SharedCells.Script.Cells
import SharedCells.Script.Maps

/-!
# Round trips through texts

An object of a script is made into a text, and the text into a new object, perhaps much later. The
new object is at version 0 and holds what was published when the text was made, whatever the
writes before and whatever the copy function of the old object.

* `Texts` are the two requests of a script, and `RoundTrips` is what comes of making them.
* `Texts.Answers.roundTrips` reduces a round trip to its contents, from the two answers of the
  script; `cells_answer`, `maps_answer` and `sets_answer` are those of the three kinds of scripts.
* `json_roundTrips` is the result, for cells, maps and sets.
-/

namespace SharedCells.Script

open Store

/-! ## Scripts that make texts and read them -/

/-- The part of a script that makes texts of its objects and objects of texts. -/
structure Texts (St Req Ans C : Type) where
  step : St → Req → Option (Ans × St)
  objects : St → List (CopyOnWrite C)
  /-- The request for the text of an object. -/
  toJson : Nat → Req
  /-- The request for the object of a text. -/
  fromJson : String → Req
  text : String → Ans
  made : Nat → Ans

namespace Texts

variable {St Req Ans C : Type}

/-- In any state an object is made into a text, which changes nothing; in any other state the
text is made into a new object at version 0, with plain copies, whose contents are the `same`. If
the order of the contents means something, that object gives the very same text again. -/
def RoundTrips (t : Texts St Req Ans C) (same : C → C → Prop) (ordered : Bool) : Prop :=
  ∀ (st later : St) (i : Nat) (c : CopyOnWrite C), (t.objects st)[i]? = some c →
    ∃ text, t.step st (t.toJson i) = some (t.text text, st) ∧
      ∃ new later', t.step later (t.fromJson text) =
          some (t.made (t.objects later).length, later') ∧
        t.objects later' = t.objects later ++ [new] ∧ new.version = 0 ∧ new.copier = .plain ∧
        same c.contents new.contents ∧
        (ordered = true →
          t.step later' (t.toJson (t.objects later).length) = some (t.text text, later'))

/-- How the two requests are answered, by a writer and a reader of contents. -/
structure Answers (t : Texts St Req Ans C) (write : C → String) (read : String → Option C) :
    Prop where
  writes (st : St) (i : Nat) (c : CopyOnWrite C) : (t.objects st)[i]? = some c →
    t.step st (t.toJson i) = some (t.text (write c.contents), st)
  reads (st : St) (text : String) (c : C) : read text = some c →
    ∃ s st', t.step st (t.fromJson text) = some (t.made (t.objects st).length, st') ∧
      t.objects st' = t.objects st ++ [(CopyOnWrite.new c s).1]

/-- Objects make the round trip when their contents do. -/
theorem Answers.roundTrips {t : Texts St Req Ans C} {write : C → String}
    {read : String → Option C} (h : t.Answers write read) {same : C → C → Prop} {ordered : Bool}
    (hcontents : ∀ c, ∃ c', read (write c) = some c' ∧ same c c' ∧
      (ordered = true → write c' = write c)) : t.RoundTrips same ordered := by
  intro st later i c hc
  obtain ⟨c', hread, hsame, hagain⟩ := hcontents c.contents
  obtain ⟨s, later', hstep, hobjects⟩ := h.reads later _ c' hread
  refine ⟨_, h.writes st i c hc, _, later', hstep, hobjects, rfl, rfl, hsame, fun hordered => ?_⟩
  have hnew : (t.objects later')[(t.objects later).length]? = some (CopyOnWrite.new c' s).1 := by
    rw [hobjects, List.getElem?_concat_length]
  rw [h.writes later' _ _ hnew]
  exact congrArg (fun text => some (t.text text, later')) (hagain hordered)

/-- Contents that are read back as they were written. -/
theorem Answers.roundTrips_eq {t : Texts St Req Ans C} {write : C → String}
    {read : String → Option C} (h : t.Answers write read)
    (hcontents : ∀ c, read (write c) = some c) : t.RoundTrips Eq true :=
  h.roundTrips fun c => ⟨c, hcontents c, rfl, fun _ => rfl⟩

end Texts

/-! ## Cells -/

section Cells

variable {C α : Type} [Sequence C α] [Bump C] [BEq C] [Text.Describe C] [Digest.Fingerprint C]

/-- The texts of cells, in a way of writing and reading their contents. -/
def cellTexts (read : Json.Reader C) (write : C → List Char) :
    Texts (CellScript C) (CellRequest C α) (CellAnswer C α) C where
  step := CellScript.step read write
  objects st := st.cells
  toJson := .toJson
  fromJson := .fromJson
  text := .text
  made := .cell

theorem cells_answer (read : Json.Reader C) (write : C → List Char) :
    (cellTexts read write).Answers (fun c => String.ofList (write c)) (Json.readDocument read) where
  writes st i c hc := by
    have hcell : st.cells[i]? = some c := hc
    simp only [cellTexts, CellScript.step, hcell]
    rfl
  reads st text c hread := by
    let new := CopyOnWrite.new c st.supply
    refine ⟨st.supply, { st with supply := new.2, cells := st.cells ++ [new.1] }, ?_, rfl⟩
    simp only [cellTexts, CellScript.step, hread]
    rfl

end Cells

/-! ## Maps -/

section Maps

variable {M K V : Type} [MapStore M K V] [BEq M] [LE K] [LT K] [DecidableLE K] [DecidableLT K]
  [DecidableEq K] [Std.IsLinearOrder K] [Std.LawfulOrderLT K] [BEq V] [Bump V] [Json.Key K]
  [Json.Item V] [Digest.Fingerprint K] [Digest.Fingerprint V] [Text.Describe K] [Text.Describe V]

/-- The texts of maps over a kind of store. -/
def mapTexts (M : Type) [MapStore M K V] [BEq M] (display : MapDisplay K V) :
    Texts (MapScript M K V) (MapRequest K V) (MapAnswer K V) M where
  step := MapScript.step display
  objects st := st.maps
  toJson i := .map (.toJson i)
  fromJson text := .map (.fromJson text)
  text := .text
  made := .made .map

theorem maps_answer (display : MapDisplay K V) :
    (mapTexts M display).Answers
      (fun m => String.ofList (Json.writeObject (MapStore.entries m)))
      (fun text => (Json.readDocument Json.readObject text).map MapStore.ofList) where
  writes st i m hm := by
    have hmap : st.maps[i]? = some m := hm
    simp only [mapTexts, MapScript.step, MapScript.onMap, hmap]
    rfl
  reads st text m hread := by
    obtain ⟨es, hes, rfl⟩ := Option.map_eq_some_iff.1 hread
    let new := CopyOnWrite.new (MapStore.ofList es : M) st.supply
    refine ⟨st.supply, { st with supply := new.2, maps := st.maps ++ [new.1] }, ?_, rfl⟩
    simp only [mapTexts, MapScript.step, MapScript.onMap, hes]
    rfl

end Maps

/-! ## Sets -/

section Sets

variable {S α : Type} [SetStore S α] [BEq S] [LE α] [LT α] [DecidableLE α] [DecidableLT α]
  [DecidableEq α] [Bump α] [Json.Item α] [Digest.Fingerprint α]

/-- The texts of sets over a kind of store. -/
def setTexts (display : SetDisplay S α) :
    Texts (SetScript S α) (SetRequest α) (SetAnswer α) S where
  step := SetScript.step display
  objects st := st.sets
  toJson := .toJson
  fromJson := .fromJson
  text := .text
  made := .set

theorem sets_answer (display : SetDisplay S α) :
    (setTexts display).Answers (fun s => String.ofList (Json.writeList (SetStore.items s)))
      (fun text => (Json.readDocument Json.readList text).map SetStore.ofList) where
  writes st i c hc := by
    have hset : st.sets[i]? = some c := hc
    simp only [setTexts, SetScript.step, hset]
    rfl
  reads st text s hread := by
    obtain ⟨as, has, rfl⟩ := Option.map_eq_some_iff.1 hread
    let new := CopyOnWrite.new (SetStore.ofList as : S) st.supply
    refine ⟨st.supply, { st with supply := new.2, sets := st.sets ++ [new.1] }, ?_, rfl⟩
    simp only [setTexts, SetScript.step, has]
    rfl

end Sets

/-! ## Contents -/

section Contents

variable {K V : Type} [Json.Key K] [Json.LawfulKey K] [Json.Item V] [Json.LawfulItem V]

/-- The text of a map gives the store that its entries make. -/
theorem read_entries {M : Type} [MapStore M K V] (m : M) :
    (Json.readDocument Json.readObject
        (String.ofList (Json.writeObject (MapStore.entries m)))).map MapStore.ofList =
      some (MapStore.ofList (MapStore.entries m) : M) := by
  rw [Json.reads_object.document, Option.map_some]

/-- The text of a set gives the store that its items make. -/
theorem read_items {S : Type} [SetStore S V] (s : S) :
    (Json.readDocument Json.readList
        (String.ofList (Json.writeList (SetStore.items s)))).map SetStore.ofList =
      some (SetStore.ofList (SetStore.items s) : S) := by
  rw [Json.reads_list.document, Option.map_some]

end Contents

/-! ## All objects -/

section All

variable {K V : Type} [LE K] [LT K] [DecidableLE K] [DecidableLT K] [DecidableEq K]
  [Std.IsLinearOrder K] [Std.LawfulOrderLT K] [Bump K] [Digest.Fingerprint K] [Text.Describe K]
  [Json.Key K] [Json.LawfulKey K] [Json.Item K] [Json.LawfulItem K] [BEq V] [Bump V]
  [Digest.Fingerprint V] [Text.Describe V] [Json.Item V] [Json.LawfulItem V]

/-- Cells, and maps and sets whose stores have an order, come back with equal contents and give
the same text again. Maps and sets over any lawful store come back with the same content. -/
theorem json_roundTrips (display : MapDisplay K V) :
    ((cellTexts Json.readList Json.writeList : Texts (CellScript (List Int64)) _ _ _).RoundTrips
        Eq true ∧
      (cellTexts Json.readText Json.writeText : Texts (CellScript String) _ _ _).RoundTrips
        Eq true) ∧
    ((mapTexts (SortedMap K V) display).RoundTrips Eq true ∧
      (mapTexts (ListedMap K V) display).RoundTrips Eq true ∧
      ∀ (M : Type) [MapStore M K V] [BEq M] (before : K → K → Prop) [LawfulMapStore M before],
        (mapTexts M display).RoundTrips MapStore.SameContent false) ∧
    (∀ display : SetDisplay (SortedSet K) K, (setTexts display).RoundTrips Eq true) ∧
    (∀ display : SetDisplay (ListedSet K) K, (setTexts display).RoundTrips Eq true) ∧
    ∀ (S : Type) [SetStore S K] [BEq S] (alike : List K → List K → Prop)
      [LawfulSetStore S alike] (display : SetDisplay S K),
        (setTexts display).RoundTrips SetStore.SameContent false := by
  refine ⟨⟨(cells_answer _ _).roundTrips_eq fun c => Json.reads_list.document c,
      (cells_answer _ _).roundTrips_eq fun c => Json.reads_text.document c⟩,
    ⟨(maps_answer display).roundTrips_eq fun m => ?_,
      (maps_answer display).roundTrips_eq fun m => ?_, fun M _ _ before _ => ?_⟩,
    fun display => (sets_answer display).roundTrips_eq fun s => ?_,
    fun display => (sets_answer display).roundTrips_eq fun s => ?_,
    fun S _ _ alike _ display => ?_⟩
  · exact (read_entries m).trans (congrArg some m.ofList_entries)
  · exact (read_entries m).trans (congrArg some m.ofList_entries)
  · exact (maps_answer display).roundTrips fun m =>
      ⟨_, read_entries m, MapStore.ofList_sameContent m, fun h => nomatch h⟩
  · exact (read_items s).trans (congrArg some s.ofList_items)
  · exact (read_items s).trans (congrArg some s.ofList_items)
  · exact (sets_answer display).roundTrips fun s =>
      ⟨_, read_items s, SetStore.ofList_sameContent s, fun h => nomatch h⟩

end All

/-- A map with keys in descending order, after some writes and with a copy function that panics; a
map over a store without an order, with texts as keys; and a set of texts. -/
theorem json_roundTrips_examples :
    let old : CowMap (SortedMap (Descending Int64) String) :=
      ⟨⟨4, (SortedMap.empty.insert ⟨-5⟩ "a\n\"").insert ⟨9⟩ "é"⟩,
        .custom fun _ _ => .error ⟨"copier panic"⟩, 3⟩
    let st : MapScript (SortedMap (Descending Int64) String) (Descending Int64) String :=
      ⟨{}, [old], [], [], []⟩
    (∃ text new st', st.step .inOrder (.map (.toJson 0)) = some (.text text, st) ∧
      st.step .inOrder (.map (.fromJson text)) = some (.made .map 1, st') ∧
      st'.maps = [old, new] ∧ new.version = 0 ∧ old.contents = new.contents) ∧
    (mapTexts (UnorderedMap String Int64) .ranked).RoundTrips MapStore.SameContent false ∧
    (setTexts (S := SortedSet String) ⟨id, fun _ => ""⟩).RoundTrips Eq true := by
  intro old st
  obtain ⟨text, htext, new, st', hstep, hmaps, hversion, -, hsame, -⟩ :=
    (json_roundTrips .inOrder).2.1.1 st st 0 old rfl
  exact ⟨⟨text, new, st', htext, hstep, hmaps, hversion, hsame⟩,
    (json_roundTrips (K := String) (V := Int64) .ranked).2.1.2.2 _ _,
    (json_roundTrips (K := String) (V := String) .inOrder).2.2.1 _⟩

end SharedCells.Script
