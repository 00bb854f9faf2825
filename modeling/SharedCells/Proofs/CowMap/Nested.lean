import SharedCells.Descending
import SharedCells.Proofs.Store.Range
import SharedCells.Script.SortedMaps

/-!
# Parts of parts

A part of a part of a sorted map keeps one bound on each side: the one that was asked for last.
Whatever it was nested in is forgotten. That loses nothing, because a range admits no bound that
lies outside it.

* `Bound.below_orElse`, `Bound.above_orElse`: on one side, the bound that is kept decides as both
  bounds do.
* `KeyRange.narrow_eq`: what a range gives to a request for a part of it.
* `parts_nested`: a range that came about by any chain of requests has the keys that all of them
  asked for, and what it gives to the next one.
-/

namespace SharedCells

variable {K : Type}

/-! ## One side -/

namespace Bound

theorem key?_orElse {inner outer : Bound K} {k : K} (h : (inner.orElse outer).key? = some k) :
    inner.key? = some k ∨ inner.key? = none ∧ outer.key? = some k := by
  cases inner with
  | unbounded => exact Or.inr ⟨rfl, h⟩
  | _ => exact Or.inl h

variable [LE K] [LT K] [DecidableLE K] [DecidableLT K] {inner outer lower upper : Bound K}
  {k k' : K}

theorem le_of_closed_below (h : lower.closed.below k = true) {low : K}
    (hlow : lower.key? = some low) : low ≤ k := by
  cases lower with
  | unbounded => cases hlow
  | _ =>
    cases hlow
    exact of_decide_eq_true h

theorem le_of_closed_above (h : upper.closed.above k = true) {high : K}
    (hhigh : upper.key? = some high) : k ≤ high := by
  cases upper with
  | unbounded => cases hhigh
  | _ =>
    cases hhigh
    exact of_decide_eq_true h

variable [Std.LawfulOrderLT K]

theorem closed_below (h : lower.below k = true) : lower.closed.below k = true := by
  cases lower with
  | excluded low => exact decide_eq_true (Std.le_of_lt (of_decide_eq_true h))
  | _ => exact h

theorem closed_above (h : upper.above k = true) : upper.closed.above k = true := by
  cases upper with
  | excluded high => exact decide_eq_true (Std.le_of_lt (of_decide_eq_true h))
  | _ => exact h

variable [Std.IsLinearOrder K]

theorem below_of_le (hle : k ≤ k') (h : lower.below k = true) : lower.below k' = true := by
  rcases Std.le_iff_lt_or_eq.1 hle with hlt | rfl
  · exact below_of_lt hlt h
  · exact h

theorem above_of_le (hle : k ≤ k') (h : upper.above k' = true) : upper.above k = true := by
  rcases Std.le_iff_lt_or_eq.1 hle with hlt | rfl
  · exact above_of_lt hlt h
  · exact h

/-- A bound lets in what lies beyond a key of its closure. -/
theorem below_of_closed (hlt : k < k') (h : lower.closed.below k = true) :
    lower.below k' = true := by
  cases lower with
  | included low => exact below_of_lt hlt h
  | excluded low => exact decide_eq_true (Std.lt_of_le_of_lt (of_decide_eq_true h) hlt)
  | unbounded => rfl

theorem above_of_closed (hlt : k < k') (h : upper.closed.above k' = true) :
    upper.above k = true := by
  cases upper with
  | included high => exact above_of_lt hlt h
  | excluded high => exact decide_eq_true (Std.lt_of_lt_of_le hlt (of_decide_eq_true h))
  | unbounded => rfl

/-- The lower bound that was asked for decides alone, if the outer one admits it. -/
theorem below_orElse (hin : ∀ low, inner = .included low → outer.below low = true)
    (hex : ∀ low, inner = .excluded low → outer.closed.below low = true) (k : K) :
    (inner.orElse outer).below k = (inner.below k && outer.below k) := by
  cases inner with
  | unbounded => rfl
  | included low =>
    refine (Bool.and_eq_left_iff_imp.2 fun h => ?_).symm
    exact below_of_le (of_decide_eq_true h) (hin low rfl)
  | excluded low =>
    refine (Bool.and_eq_left_iff_imp.2 fun h => ?_).symm
    exact below_of_closed (of_decide_eq_true h) (hex low rfl)

theorem above_orElse (hin : ∀ high, inner = .included high → outer.above high = true)
    (hex : ∀ high, inner = .excluded high → outer.closed.above high = true) (k : K) :
    (inner.orElse outer).above k = (inner.above k && outer.above k) := by
  cases inner with
  | unbounded => rfl
  | included high =>
    refine (Bool.and_eq_left_iff_imp.2 fun h => ?_).symm
    exact above_of_le (of_decide_eq_true h) (hin high rfl)
  | excluded high =>
    refine (Bool.and_eq_left_iff_imp.2 fun h => ?_).symm
    exact above_of_closed (of_decide_eq_true h) (hex high rfl)

end Bound

/-! ## One request -/

namespace KeyRange

variable [LE K] [LT K] [DecidableLE K] [DecidableLT K] {r r' : KeyRange K}
  {lower upper b : Bound K} {k : K}

/-- The lower key exceeds the upper one. -/
def Inverted (r : KeyRange K) : Prop :=
  ∃ low high, r.lower.key? = some low ∧ r.upper.key? = some high ∧ high < low

/-- A bound lies outside a range: an inclusive one is no key of it, an exclusive one no key of its
closure. -/
def Excludes (r : KeyRange K) (b : Bound K) : Prop :=
  (∃ k, b = .included k ∧ r.contains k = false) ∨
    ∃ k, b = .excluded k ∧ r.closure.contains k = false

theorem admits_eq_false_iff : r.admits b = false ↔ r.Excludes b := by
  cases b with
  | included k => simp [admits, Excludes]
  | excluded k => simp [admits, Excludes]
  | unbounded => simp [admits, Excludes]

omit [LE K] [DecidableLE K] in
theorem ofBounds_of_inverted (h : Inverted ⟨lower, upper⟩) :
    ofBounds lower upper = .error .invalidRange := by
  obtain ⟨low, high, hlow, hhigh, hlt⟩ := h
  have hlow' : lower.key? = some low := hlow
  have hhigh' : upper.key? = some high := hhigh
  simp only [ofBounds, hlow', hhigh', if_pos hlt]

omit [LE K] [DecidableLE K] in
theorem ofBounds_of_not_inverted (h : ¬Inverted ⟨lower, upper⟩) :
    ofBounds lower upper = .ok ⟨lower, upper⟩ := by
  rw [ofBounds]
  split
  · rename_i low high hlow hhigh
    rw [if_neg fun hlt => h ⟨low, high, hlow, hhigh, hlt⟩]
  · rfl

/-- What a range gives to a request for the part between two bounds. -/
theorem narrow_eq (r : KeyRange K) (lower upper : Bound K) :
    (Inverted ⟨lower, upper⟩ ∧ r.narrow lower upper = .error .invalidRange) ∨
    (¬Inverted ⟨lower, upper⟩ ∧ (r.Excludes lower ∨ r.Excludes upper) ∧
      r.narrow lower upper = .error .keyOutOfRange) ∨
    (¬Inverted ⟨lower, upper⟩ ∧ ¬(r.Excludes lower ∨ r.Excludes upper) ∧
      r.narrow lower upper = .ok ⟨lower.orElse r.lower, upper.orElse r.upper⟩) := by
  by_cases hinverted : Inverted ⟨lower, upper⟩
  · exact Or.inl ⟨hinverted, by simp only [narrow, ofBounds_of_inverted hinverted]⟩
  · have hok := ofBounds_of_not_inverted hinverted
    cases hadmits : r.admits lower && r.admits upper with
    | false =>
      have hexcludes : r.Excludes lower ∨ r.Excludes upper := by
        rw [Bool.and_eq_false_iff, admits_eq_false_iff, admits_eq_false_iff] at hadmits
        exact hadmits
      refine Or.inr (Or.inl ⟨hinverted, hexcludes, ?_⟩)
      simp [narrow, hok, hadmits]
    | true =>
      have hadmitted : ¬(r.Excludes lower ∨ r.Excludes upper) := by
        rw [← admits_eq_false_iff, ← admits_eq_false_iff, ← Bool.and_eq_false_iff, hadmits]
        exact Bool.noConfusion
      refine Or.inr (Or.inr ⟨hinverted, hadmitted, ?_⟩)
      simp [narrow, hok, hadmits]

variable [Std.IsLinearOrder K] [Std.LawfulOrderLT K]

omit [Std.IsLinearOrder K] [Std.LawfulOrderLT K] in
theorem contains_of_included (h : ¬r.Excludes (.included k)) : r.contains k = true :=
  Bool.of_not_eq_false fun hno => h (Or.inl ⟨k, rfl, hno⟩)

omit [Std.IsLinearOrder K] in
/-- A bound that does not lie outside a range has its key in the closure of the range. -/
theorem closure_contains (h : ¬r.Excludes b) (hk : b.key? = some k) :
    r.closure.contains k = true := by
  cases b with
  | unbounded => cases hk
  | excluded k' =>
    cases hk
    exact Bool.of_not_eq_false fun hno => h (Or.inr ⟨k, rfl, hno⟩)
  | included k' =>
    cases hk
    have hsides := Bool.and_eq_true_iff.1 (contains_of_included h)
    exact Bool.and_eq_true_iff.2 ⟨Bound.closed_below hsides.1, Bound.closed_above hsides.2⟩

/-- A part has the keys of the range that were asked for, though it keeps one bound on each side
only. -/
theorem contains_narrow (h : r.narrow lower upper = .ok r') (k : K) :
    r'.contains k = true ↔ r.contains k = true ∧ KeyRange.contains ⟨lower, upper⟩ k = true := by
  rcases narrow_eq r lower upper with ⟨-, hno⟩ | ⟨-, -, hno⟩ | ⟨-, hadmitted, hok⟩
  · cases hno.symm.trans h
  · cases hno.symm.trans h
  · cases hok.symm.trans h
    have hlower : ¬r.Excludes lower := fun hno => hadmitted (Or.inl hno)
    have hupper : ¬r.Excludes upper := fun hno => hadmitted (Or.inr hno)
    have hbelow : (lower.orElse r.lower).below k = (lower.below k && r.lower.below k) := by
      refine Bound.below_orElse (fun low hlow => ?_) (fun low hlow => ?_) k
      · exact (Bool.and_eq_true_iff.1 (contains_of_included (hlow ▸ hlower))).1
      · exact (Bool.and_eq_true_iff.1 (closure_contains hlower (hlow ▸ rfl))).1
    have habove : (upper.orElse r.upper).above k = (upper.above k && r.upper.above k) := by
      refine Bound.above_orElse (fun high hhigh => ?_) (fun high hhigh => ?_) k
      · exact (Bool.and_eq_true_iff.1 (contains_of_included (hhigh ▸ hupper))).2
      · exact (Bool.and_eq_true_iff.1 (closure_contains hupper (hhigh ▸ rfl))).2
    simp only [contains, hbelow, habove, Bool.and_eq_true]
    exact ⟨fun h => ⟨⟨h.1.2, h.2.2⟩, h.1.1, h.2.1⟩, fun h => ⟨⟨h.2.1, h.1.1⟩, h.2.2, h.1.2⟩⟩

/-- The bounds of a part are in order when those of the range are, also where the part has one
bound from the request and the other from the range. -/
theorem not_inverted_narrow (hr : ¬r.Inverted) (h : r.narrow lower upper = .ok r') :
    ¬r'.Inverted := by
  rcases narrow_eq r lower upper with ⟨-, hno⟩ | ⟨-, -, hno⟩ | ⟨hordered, hadmitted, hok⟩
  · cases hno.symm.trans h
  · cases hno.symm.trans h
  · cases hok.symm.trans h
    rintro ⟨low, high, hlow, hhigh, hlt⟩
    rcases Bound.key?_orElse hlow with hlow | ⟨-, hlow⟩ <;>
      rcases Bound.key?_orElse hhigh with hhigh | ⟨-, hhigh⟩
    · exact hordered ⟨low, high, hlow, hhigh, hlt⟩
    · have hin := closure_contains (fun hno => hadmitted (Or.inl hno)) hlow
      have hle := Bound.le_of_closed_above (Bool.and_eq_true_iff.1 hin).2 hhigh
      exact Std.not_lt.2 hle hlt
    · have hin := closure_contains (fun hno => hadmitted (Or.inr hno)) hhigh
      have hle := Bound.le_of_closed_below (Bool.and_eq_true_iff.1 hin).1 hlow
      exact Std.not_lt.2 hle hlt
    · exact hr ⟨low, high, hlow, hhigh, hlt⟩

end KeyRange

/-! ## Chains of requests -/

namespace Script

open SortedScript

/-- The bounds that a request asks for. -/
def Part.asked : Part K → KeyRange K
  | head stop => ⟨.unbounded, .excluded stop⟩
  | tail start => ⟨.included start, .unbounded⟩
  | between start stop => ⟨.included start, .excluded stop⟩
  | range lower upper => ⟨lower, upper⟩

variable [LE K] [LT K] [DecidableLE K] [DecidableLT K] {r r' : KeyRange K} {p : Part K}

/-- A range that came about by requests each of which was granted, with what they asked for: the
first one to a whole map, or for a new range, and each later one to the range that the one before
it gave. -/
inductive Chain : List (KeyRange K) → KeyRange K → Prop
  | full : Chain [] .full
  | part {r : KeyRange K} {p : Part K} : partOf p = .ok r → Chain [p.asked] r
  | within {asked : List (KeyRange K)} {r r' : KeyRange K} {p : Part K} :
    Chain asked r → partWithin r p = .ok r' → Chain (asked ++ [p.asked]) r'

/-- What a range gives to a request for a part of it. -/
structure Gives (r : KeyRange K) (p : Part K) : Prop where
  invalidRange : partWithin r p = .error .invalidRange ↔ p.asked.Inverted
  keyOutOfRange : partWithin r p = .error .keyOutOfRange ↔
    ¬p.asked.Inverted ∧ (r.Excludes p.asked.lower ∨ r.Excludes p.asked.upper)
  granted : (∃ r', partWithin r p = .ok r') ↔
    ¬p.asked.Inverted ∧ ¬(r.Excludes p.asked.lower ∨ r.Excludes p.asked.upper)

theorem partWithin_eq (r : KeyRange K) (p : Part K) :
    partWithin r p = r.narrow p.asked.lower p.asked.upper := by
  cases p <;> rfl

theorem gives (r : KeyRange K) (p : Part K) : Gives r p := by
  rcases r.narrow_eq p.asked.lower p.asked.upper with
    ⟨hinverted, h⟩ | ⟨hordered, hout, h⟩ | ⟨hordered, hin, h⟩
  all_goals rw [← partWithin_eq] at h
  · have hinverted' : p.asked.Inverted := hinverted
    constructor <;> simp [h, hinverted']
  · have hordered' : ¬p.asked.Inverted := hordered
    constructor <;> simp [h, hordered', hout]
  · have hordered' : ¬p.asked.Inverted := hordered
    constructor <;> simp [h, hordered', hin]

omit [LE K] [DecidableLE K] in
theorem eq_of_partOf (h : partOf p = .ok r) : r = p.asked ∧ ¬r.Inverted := by
  have hofBounds : ∀ lower upper, KeyRange.ofBounds lower upper = .ok r →
      r = ⟨lower, upper⟩ ∧ ¬r.Inverted := by
    intro lower upper hr
    by_cases hinverted : KeyRange.Inverted ⟨lower, upper⟩
    · cases (KeyRange.ofBounds_of_inverted hinverted).symm.trans hr
    · cases (KeyRange.ofBounds_of_not_inverted hinverted).symm.trans hr
      exact ⟨rfl, hinverted⟩
  cases p with
  | head stop =>
    cases h
    exact ⟨rfl, fun ⟨_, _, hno, _⟩ => nomatch hno⟩
  | tail start =>
    cases h
    exact ⟨rfl, fun ⟨_, _, _, hno, _⟩ => nomatch hno⟩
  | between start stop => exact hofBounds _ _ h
  | range lower upper => exact hofBounds _ _ h

variable [Std.IsLinearOrder K] [Std.LawfulOrderLT K]

theorem Chain.contains_iff {asked : List (KeyRange K)} (h : Chain asked r) (k : K) :
    r.contains k = true ↔ ∀ q ∈ asked, q.contains k = true := by
  induction h with
  | full => exact iff_of_true rfl fun q hq => nomatch hq
  | part hr => rw [(eq_of_partOf hr).1, List.forall_mem_singleton]
  | within _ hr ih =>
    rw [partWithin_eq] at hr
    rw [KeyRange.contains_narrow hr, ih, List.forall_mem_append, List.forall_mem_singleton]

theorem Chain.not_inverted {asked : List (KeyRange K)} (h : Chain asked r) : ¬r.Inverted := by
  induction h with
  | full => exact fun ⟨_, _, hno, _⟩ => nomatch hno
  | part hr => exact (eq_of_partOf hr).2
  | within _ hr ih =>
    rw [partWithin_eq] at hr
    exact KeyRange.not_inverted_narrow ih hr

/-- A range that came about by any chain of requests has the keys that all of them asked for, and
its bounds are in order. Any range refuses a request for inverted bounds first, then one for a
bound that lies outside it, and grants every other one. -/
theorem parts_nested :
    (∀ asked (r : KeyRange K), Chain asked r →
      (∀ k, r.contains k = true ↔ ∀ q ∈ asked, q.contains k = true) ∧ ¬r.Inverted) ∧
    ∀ (r : KeyRange K) (p : Part K), Gives r p :=
  ⟨fun _ _ h => ⟨h.contains_iff, h.not_inverted⟩, gives⟩

/-- A range that is empty, since equal bounds leave their key out, still admits that key as an
exclusive bound; a range that has keys, with one bound from each of two requests; and keys that are
ordered from great to small. -/
theorem parts_nested_examples :
    let vacant := [(Part.tail 1).asked, (Part.between 4 4).asked, (Part.head 4).asked]
    let held := [(Part.tail 1).asked, (Part.between 2 9).asked, (Part.head 6).asked]
    (∃ r : KeyRange Nat, Chain vacant r ∧
        (∀ k, r.contains k = true ↔ ∀ q ∈ vacant, q.contains k = true) ∧ ¬r.Inverted) ∧
      (∃ r : KeyRange Nat, Chain held r ∧
        (∀ k, r.contains k = true ↔ ∀ q ∈ held, q.contains k = true) ∧ ¬r.Inverted ∧
          r.contains 1 = false ∧ r.contains 2 = true ∧ r.contains 5 = true ∧
          r.contains 6 = false) ∧
      Gives (⟨.unbounded, .excluded ⟨2⟩⟩ : KeyRange (Descending Nat)) (.between ⟨3⟩ ⟨1⟩) := by
  intro vacant held
  have hvacant : Chain vacant (⟨.included 4, .excluded 4⟩ : KeyRange Nat) :=
    .within (.within (.part (p := .tail 1) rfl) (p := .between 4 4) rfl) (p := .head 4) rfl
  have hheld : Chain held (⟨.included 2, .excluded 6⟩ : KeyRange Nat) :=
    .within (.within (.part (p := .tail 1) rfl) (p := .between 2 9) rfl) (p := .head 6) rfl
  obtain ⟨hcontains, hinverted⟩ := parts_nested.1 _ _ hheld
  exact ⟨⟨_, hvacant, parts_nested.1 _ _ hvacant⟩,
    ⟨_, hheld, hcontains, hinverted, rfl, rfl, rfl, rfl⟩, parts_nested.2 _ _⟩

end Script

end SharedCells
