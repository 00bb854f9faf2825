import Mathlib.Logic.Relation
import SharedCells.Cas.Race

/-!
# What is known of the values of a cell

The functions of the calls on a cell share a state. `Evidence` is what is known of values, and of
what functions make of them, in every such state. There are two kinds of it: that a function has
made a value while the state was between two others (`Call.Made`), and what values mean in a state
(`Reading`).
-/

namespace SharedCells.Cas

variable {σ V α : Type}

/-- What is known of values, and of what functions make of them, in a state of the functions. It
lasts while the functions of some calls change the state. -/
structure Evidence (calls : List (Call σ V)) (seen : σ → V → Prop)
    (made : σ → Call σ V → V → Except Panic V → Prop) : Prop where
  makes : ∀ call ∈ calls, ∀ s v, seen s v →
    made (call.propose s v).2 call v (call.propose s v).1
  seen_of_made : ∀ s call v w, made s call v (.ok w) → seen s w
  keepsSeen : ∀ call ∈ calls, ∀ s v, seen s v → ∀ u, seen s u → seen (call.propose s v).2 u
  keepsMade : ∀ call ∈ calls, ∀ s v, seen s v → ∀ call' u o, made s call' u o →
    made (call.propose s v).2 call' u o

/-- A state that the functions of some calls came to from another one. -/
def Later (calls : List (Call σ V)) : σ → σ → Prop :=
  Relation.ReflTransGen fun s s' => ∃ call ∈ calls, ∃ v, s' = (call.propose s v).2

/-- Between two states the function of one of some calls has made something of a value. -/
structure Call.Made (calls : List (Call σ V)) (first last : σ) (call : Call σ V) (v : V)
    (o : Except Panic V) : Prop where
  mem : call ∈ calls
  between : ∃ s, Later calls first s ∧ (call.propose s v).1 = o ∧
    Later calls (call.propose s v).2 last

theorem evidence_made (calls : List (Call σ V)) (first : σ) :
    Evidence calls (fun s _ => Later calls first s) (Call.Made calls first) where
  makes call hcall s v hs := ⟨hcall, s, hs, rfl, .refl⟩
  seen_of_made s call v w h := by
    obtain ⟨hcall, s₀, hs₀, -, hs⟩ := h
    exact (hs₀.tail ⟨call, hcall, v, rfl⟩).trans hs
  keepsSeen call hcall s v _ u hu := hu.tail ⟨call, hcall, v, rfl⟩
  keepsMade call hcall s v _ call' u o h := by
    obtain ⟨hcall', s₀, hs₀, ho, hs⟩ := h
    exact ⟨hcall', s₀, hs₀, ho, hs.tail ⟨call, hcall, v, rfl⟩⟩

/-- What the values of a cell mean in a state of the functions, as far as they are known. -/
structure Reading (σ V α : Type) where
  known : σ → V → Prop
  view : σ → V → α

/-- A call whose function applies another one to what values mean. It may add to the state, but
leaves what is known as it is. -/
def Call.Applies (call : Call σ V) (R : Reading σ V α) (f : α → α) : Prop :=
  ∀ s v, R.known s v → ∃ w s', call.propose s v = (.ok w, s') ∧ R.known s' w ∧
    R.view s' w = f (R.view s v) ∧ ∀ u, R.known s u → R.known s' u ∧ R.view s' u = R.view s u

namespace Reading

/-- What a function has made of a value means what it should. -/
def Makes (R : Reading σ V α) (f : Call σ V → α → α) (s : σ) (call : Call σ V) (v : V)
    (o : Except Panic V) : Prop :=
  R.known s v ∧ ∃ w, o = .ok w ∧ R.known s w ∧ R.view s w = f call (R.view s v)

/-- A value is known, and a first value still means what it did. -/
def Keeps (R : Reading σ V α) (first : V) (a : α) (s : σ) (v : V) : Prop :=
  R.known s v ∧ R.known s first ∧ R.view s first = a

theorem evidence {R : Reading σ V α} {f : Call σ V → α → α} {calls : List (Call σ V)}
    (h : ∀ call ∈ calls, call.Applies R (f call)) (first : V) (a : α) :
    Evidence calls (R.Keeps first a)
      fun s call v o => R.Makes f s call v o ∧ R.known s first ∧ R.view s first = a where
  makes call hcall s v hv := by
    obtain ⟨hv, hfirst, ha⟩ := hv
    obtain ⟨w, s', hpropose, hw, hview, hkeeps⟩ := h call hcall s v hv
    rw [hpropose]
    refine ⟨⟨(hkeeps v hv).1, w, rfl, hw, ?_⟩, (hkeeps first hfirst).1, ?_⟩
    · rw [hview, (hkeeps v hv).2]
    · rw [(hkeeps first hfirst).2, ha]
  seen_of_made s call v w hmade := by
    obtain ⟨⟨-, w', hw', hknown, -⟩, hfirst⟩ := hmade
    cases hw'
    exact ⟨hknown, hfirst⟩
  keepsSeen call hcall s v hv u hu := by
    obtain ⟨hv, -⟩ := hv
    obtain ⟨hu, hfirst, ha⟩ := hu
    obtain ⟨w, s', hpropose, -, -, hkeeps⟩ := h call hcall s v hv
    rw [hpropose]
    exact ⟨(hkeeps u hu).1, (hkeeps first hfirst).1, by rw [(hkeeps first hfirst).2, ha]⟩
  keepsMade call hcall s v hv call' u o hmade := by
    obtain ⟨hv, -⟩ := hv
    obtain ⟨⟨hu, w', ho, hw', hview⟩, hfirst, ha⟩ := hmade
    obtain ⟨w, s', hpropose, -, -, hkeeps⟩ := h call hcall s v hv
    rw [hpropose]
    refine ⟨⟨(hkeeps u hu).1, w', ho, (hkeeps w' hw').1, ?_⟩, (hkeeps first hfirst).1, ?_⟩
    · rw [(hkeeps w' hw').2, (hkeeps u hu).2, hview]
    · rw [(hkeeps first hfirst).2, ha]

/-- Values that mean themselves. -/
def plain : Reading σ V V := ⟨fun _ _ => True, fun _ v => v⟩

/-- References into a heap, which mean what they lead to; an absent one means a default. -/
def heap (default : α) : Reading (List α) (Option Address) α where
  known heap a? := ∀ a ∈ a?, a.index < heap.length
  view heap a? := (a?.bind fun a => heap[a.index]?).getD default

end Reading

/-- A function of the value alone applies itself. -/
theorem applies_plain {call : Call σ V} {f : V → V}
    (h : ∀ s v, call.propose s v = (.ok (f v), s)) : call.Applies .plain f :=
  fun s v _ => ⟨f v, s, h s v, trivial, rfl, fun _ _ => ⟨trivial, rfl⟩⟩

/-- A function that allocates what another one makes of what a reference leads to. -/
theorem applies_heap {call : Call (List α) (Option Address)} {default : α} {f : α → α}
    (h : ∀ heap a?, call.propose heap a? =
      (.ok (some ⟨heap.length⟩), heap ++ [f ((Reading.heap default).view heap a?)])) :
    call.Applies (.heap default) f := by
  intro heap a? _
  refine ⟨_, _, h heap a?, ?_, ?_, fun u hu => ⟨?_, ?_⟩⟩
  · intro a ha
    cases ha
    simp
  · simp [Reading.heap]
  · intro a ha
    have hlt := hu a ha
    rw [List.length_append]
    omega
  · cases u with
    | none => rfl
    | some a =>
      have hlt : a.index < heap.length := hu a rfl
      simp [Reading.heap, List.getElem?_append_left hlt]

end SharedCells.Cas
