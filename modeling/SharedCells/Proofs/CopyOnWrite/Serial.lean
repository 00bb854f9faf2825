import SharedCells.CopyOnWrite.Race
import SharedCells.Proofs.CopyOnWrite.Writes

/-!
# Writes made one after another

What a race of writers is compared with: the same writes made at once, by `attempt`, one after
another. `Served` keeps what they leave behind, and `Served.Sound` says what that is worth: the
content is made by the published writes alone, in their order, and the version counts them.
-/

namespace SharedCells

variable {C : Type}

/-- The copy that a copier makes as its copy of a number. -/
def Copier.numbered : Copier C → Nat → C → Except Panic C
  | plain, _, c => .ok c
  | custom copy, n, c => copy n c

theorem Copier.numbered_of_copy {copier : Copier C} {s s' : Supply} {c w : C}
    (h : copier.copy s c = (.ok w, s')) : copier.numbered s'.copies c = .ok w := by
  cases copier with
  | plain =>
    cases h
    rfl
  | custom copy =>
    obtain ⟨hcopy, rfl⟩ := Prod.ext_iff.1 h
    exact hcopy

namespace CopyOnWrite

/-- A write that a thread makes. -/
structure Call (C : Type) where
  writer : Nat
  job : Job C

def Landing.call (l : Landing C) : Call C := ⟨l.writer, l.job⟩

/-- A mutation as a write applies it. -/
def Job.mutation (job : Job C) (w : C) : Except Unit (Unit × C) :=
  match job w with
  | none => .error ()
  | some w' => .ok ((), w')

/-- What a mutation makes of a content; one that fails leaves it. -/
def Job.effect (job : Job C) (c : C) : C := (job c).getD c

/-- A content that comes from another one by writes, the latest first: each copies what the
earlier ones made and mutates the copy. -/
inductive Replays (copier : Copier C) (first : C) : List (Landing C) → C → Prop
  | nil : Replays copier first [] first
  | cons {log : List (Landing C)} {l : Landing C} {c w c' : C} :
    Replays copier first log c → copier.numbered l.copy c = .ok w → l.job w = some c' →
      Replays copier first (l :: log) c'

/-- What writes made one after another leave behind. -/
structure Served (C : Type) where
  cell : CopyOnWrite C
  supply : Supply
  /-- The writes that were published, the latest first. -/
  log : List (Landing C)
  /-- All writes made, and whether each succeeded. -/
  ended : List (Call C × Bool)

namespace Served

def start (cell : CopyOnWrite C) (s : Supply) : Served C := ⟨cell, s, [], []⟩

/-- One more write, made at once. -/
def serve (st : Served C) (call : Call C) : Served C :=
  let w := st.cell.attempt st.supply (fun _ => ()) call.job.mutation
  match w.result with
  | .error _ => ⟨w.cell, w.supply, st.log, st.ended ++ [(call, false)]⟩
  | .ok _ =>
    let number := (st.cell.copyCurrent st.supply).2.copies
    ⟨w.cell, w.supply, ⟨call.writer, number, call.job⟩ :: st.log, st.ended ++ [(call, true)]⟩

def serveAll (st : Served C) (calls : List (Call C)) : Served C := calls.foldl serve st

section Serve

variable {st : Served C} {call : Call C} {w w' : C} {s' : Supply} {p : Panic}

theorem serve_of_copy_error (hcopy : st.cell.copyCurrent st.supply = (.error p, s')) :
    st.serve call = ⟨st.cell, s', st.log, st.ended ++ [(call, false)]⟩ := by
  rw [serve, attempt_of_copy_error hcopy]

theorem serve_of_none (hcopy : st.cell.copyCurrent st.supply = (.ok w, s'))
    (hjob : call.job w = none) :
    st.serve call = ⟨st.cell, s', st.log, st.ended ++ [(call, false)]⟩ := by
  have hmutation : call.job.mutation w = .error () := by rw [Job.mutation, hjob]
  rw [serve, attempt_of_error hcopy hmutation]

theorem serve_of_some (hcopy : st.cell.copyCurrent st.supply = (.ok w, s'))
    (hjob : call.job w = some w') :
    st.serve call =
      ⟨(st.cell.publish s' w').1, (st.cell.publish s' w').2,
        ⟨call.writer, s'.copies, call.job⟩ :: st.log, st.ended ++ [(call, true)]⟩ := by
  have hmutation : call.job.mutation w = .ok ((), w') := by rw [Job.mutation, hjob]
  rw [serve, attempt_of_ok hcopy hmutation, hcopy]

end Serve

/-- What holds of the writes made so far on a cell. -/
structure Sound (cell : CopyOnWrite C) (st : Served C) : Prop where
  copier : st.cell.copier = cell.copier
  content : Replays cell.copier cell.contents st.log st.cell.contents
  version : st.cell.version = cell.version + st.log.length
  /-- The published writes are those that succeeded, in their order. -/
  landed : st.log.reverse.map Landing.call = (st.ended.filter Prod.snd).map Prod.fst

theorem sound_start (cell : CopyOnWrite C) (s : Supply) : Sound cell (start cell s) :=
  ⟨rfl, .nil, rfl, rfl⟩

theorem Sound.serve {cell : CopyOnWrite C} {st : Served C} (h : Sound cell st) (call : Call C) :
    Sound cell (st.serve call) := by
  rcases hcopy : st.cell.copyCurrent st.supply with ⟨copied, s'⟩
  cases copied with
  | error p =>
    rw [serve_of_copy_error hcopy]
    exact ⟨h.copier, h.content, h.version, by rw [h.landed]; simp⟩
  | ok w =>
    cases hjob : call.job w with
    | none =>
      rw [serve_of_none hcopy hjob]
      exact ⟨h.copier, h.content, h.version, by rw [h.landed]; simp⟩
    | some w' =>
      rw [serve_of_some hcopy hjob]
      have hnumbered := Copier.numbered_of_copy hcopy
      rw [h.copier] at hnumbered
      refine ⟨h.copier, .cons h.content hnumbered hjob, ?_, ?_⟩
      · rw [version_publish, h.version, List.length_cons, Nat.add_assoc]
      · rw [List.reverse_cons, List.map_append, h.landed]
        simp [Landing.call]

theorem Sound.serveAll {cell : CopyOnWrite C} {st : Served C} (h : Sound cell st)
    (calls : List (Call C)) : Sound cell (st.serveAll calls) := by
  induction calls generalizing st with
  | nil => exact h
  | cons call calls ih => exact ih (h.serve call)

theorem ended_serve (st : Served C) (call : Call C) :
    (st.serve call).ended.map Prod.fst = st.ended.map Prod.fst ++ [call] := by
  rw [serve]
  dsimp only
  split <;> simp

theorem ended_serveAll (st : Served C) (calls : List (Call C)) :
    (st.serveAll calls).ended.map Prod.fst = st.ended.map Prod.fst ++ calls := by
  induction calls generalizing st with
  | nil => simp [serveAll]
  | cons call calls ih =>
    rw [serveAll, List.foldl_cons, ← serveAll, ih, ended_serve, List.append_assoc]
    rfl

/-- With a faithful copy function each write has the effect of its mutation. -/
theorem contents_serve {st : Served C} (hfaithful : st.cell.copier.Faithful (· = ·))
    (call : Call C) :
    (st.serve call).cell.contents = call.job.effect st.cell.contents ∧
      (st.serve call).cell.copier = st.cell.copier := by
  obtain ⟨w, s', hcopy, rfl⟩ := copyCurrent_of_faithful hfaithful (fun _ => rfl) st.supply
  cases hjob : call.job st.cell.contents with
  | none =>
    rw [serve_of_none hcopy hjob, Job.effect, hjob]
    exact ⟨rfl, rfl⟩
  | some w' =>
    rw [serve_of_some hcopy hjob, Job.effect, hjob]
    exact ⟨rfl, rfl⟩

theorem contents_serveAll {st : Served C} (hfaithful : st.cell.copier.Faithful (· = ·))
    (calls : List (Call C)) :
    (st.serveAll calls).cell.contents =
      (calls.map Call.job).foldl (fun c job => job.effect c) st.cell.contents := by
  induction calls generalizing st with
  | nil => rfl
  | cons call calls ih =>
    obtain ⟨hcontents, hcopier⟩ := contents_serve hfaithful call
    rw [serveAll, List.foldl_cons, ← serveAll, ih (hcopier ▸ hfaithful), hcontents]
    rfl

end Served

end CopyOnWrite

end SharedCells
