/-
  File:      Lithograph/Library/StreamMerge.lean
  Subject:   Two sorted streams visited as one, the changes before the rows.

  * `visitRows_eq`: the visitor is handed the rows under the changes, in order, up to its first
    failure.
-/
import Lithograph.Library.Overlay

namespace Lithograph.Library

open Std

variable {K V R E σ ε : Type} [Ord K]

/-- The entries up to a key are visited, and one at the key is the last. -/
def visitThrough (key : E → K) (visit : σ → E → Except ε σ) (k : K) :
    List E → σ → Except ε (Bool × List E × σ)
  | [], s => .ok (false, [], s)
  | entry :: entries, s =>
    match compare (key entry) k with
    | .gt => .ok (false, entry :: entries, s)
    | .eq => do
      let s ← visit s entry
      .ok (true, entries, s)
    | .lt => do
      let s ← visit s entry
      visitThrough key visit k entries s

/-- The rows are visited, each after the entries up to its key, unless one of them covers it. -/
def visitRows (through : K → List E → σ → Except ε (Bool × List E × σ)) (rowKey : R → K)
    (visitRow : σ → R → Except ε σ) : List R → List E → σ → Except ε (List E × σ)
  | [], entries, s => .ok (entries, s)
  | row :: rows, entries, s => do
    let (covered, rest, s) ← through (rowKey row) entries s
    let s ← if covered then pure s else visitRow s row
    visitRows through rowKey visitRow rows rest s

section Merge

variable (rowKey : R → K) (rowValue : R → V) {key : E → K} {change : E → Option V}
  {visit : σ → K × V → Except ε σ} {visitRow : σ → R → Except ε σ}
  {visitEntry : σ → E → Except ε σ}

/-- **The visitor is handed what `mergeBefore` gives.** -/
theorem visitThrough_eq (row : R) (hrow : ∀ s, visitRow s row = visit s (rowKey row, rowValue row))
    {entries : List E}
    (hentry : ∀ e ∈ entries, ∀ s, visitEntry s e = (emit (key e, change e)).foldlM visit s) :
    ∃ rest, (∀ e ∈ rest, e ∈ entries) ∧
      rest.map (fun e => (key e, change e)) =
        (mergeBefore (rowKey row, rowValue row) (entries.map fun e => (key e, change e))).2 ∧
      ∀ {β : Type} (f : List E → σ → Except ε β) (s : σ),
        (visitThrough key visitEntry (rowKey row) entries s >>= fun p =>
          (if p.1 then pure p.2.2 else visitRow p.2.2 row) >>= fun s => f p.2.1 s) =
        ((mergeBefore (rowKey row, rowValue row)
          (entries.map fun e => (key e, change e))).1.foldlM visit s >>= fun s => f rest s) := by
  induction entries with
  | nil =>
    refine ⟨[], fun e he => he, rfl, fun f s => ?_⟩
    show (visitRow s row >>= fun s => f [] s) = _
    rw [hrow]
    simp only [mergeBefore, List.map_nil, List.foldlM_cons, List.foldlM_nil, bind_pure]
  | cons entry entries ih =>
    have hhead := hentry entry (.head _)
    rw [List.map_cons]
    cases hcmp : compare (key entry) (rowKey row) with
    | gt =>
      refine ⟨entry :: entries, fun e he => he, ?_, fun f s => ?_⟩
      · rw [List.map_cons]
        simp only [mergeBefore, hcmp]
      · simp only [visitThrough, mergeBefore, hcmp, ok_bind]
        rw [if_neg Bool.false_ne_true, hrow]
        simp only [List.foldlM_cons, List.foldlM_nil, bind_pure]
    | eq =>
      refine ⟨entries, fun e he => .tail _ he, ?_, fun f s => ?_⟩
      · simp only [mergeBefore, hcmp]
      · simp only [visitThrough, mergeBefore, hcmp]
        rw [hhead, bind_assoc]
        rfl
    | lt =>
      obtain ⟨rest, hrest, hmap, hvisit⟩ := ih fun e he => hentry e (.tail _ he)
      refine ⟨rest, fun e he => .tail _ (hrest e he), ?_, fun f s => ?_⟩
      · simp only [mergeBefore, hcmp]
        exact hmap
      · simp only [visitThrough, mergeBefore, hcmp]
        rw [hhead, bind_assoc, List.foldlM_append, bind_assoc]
        exact congrArg _ (funext fun s => hvisit f s)

/-- **The visitor is handed the rows under the changes**, up to its first failure. -/
theorem visitRows_eq (hrow : ∀ row s, visitRow s row = visit s (rowKey row, rowValue row))
    {rows : List R} {entries : List E}
    (hentry : ∀ e ∈ entries, ∀ s, visitEntry s e = (emit (key e, change e)).foldlM visit s)
    (s : σ) :
    (visitRows (visitThrough key visitEntry) rowKey visitRow rows entries s >>= fun p =>
      p.1.foldlM visitEntry p.2) =
    (mergeChanges (rows.map fun r => (rowKey r, rowValue r))
      (entries.map fun e => (key e, change e))).foldlM visit s := by
  induction rows generalizing entries s with
  | nil =>
    show entries.foldlM visitEntry s = _
    rw [List.map_nil, mergeChanges]
    induction entries generalizing s with
    | nil => rfl
    | cons entry entries ih =>
      rw [List.foldlM_cons, hentry entry List.mem_cons_self, List.map_cons, List.flatMap_cons,
        List.foldlM_append]
      exact congrArg _ (funext fun s =>
        ih (fun e he => hentry e (.tail _ he)) s)
  | cons row rows ih =>
    obtain ⟨rest, hrest, hmap, hvisit⟩ := visitThrough_eq rowKey rowValue row (hrow row) hentry
    rw [List.map_cons, mergeChanges, List.foldlM_append, ← hmap]
    have hstep := hvisit (fun rest s => visitRows (visitThrough key visitEntry) rowKey visitRow
      rows rest s >>= fun p => p.1.foldlM visitEntry p.2) s
    simp only [visitRows, bind_assoc]
    refine Eq.trans (congrArg _ (funext fun p => ?_)) (hstep.trans (congrArg _ (funext fun s => ?_)))
    · -- the rest of the rows follows either way
      obtain ⟨covered, rest, s⟩ := p
      cases covered
      · exact (bind_assoc _ _ _)
      · rfl
    · exact ih (fun e he => hentry e (hrest e he)) s

end Merge

theorem mergeChanges_lookup {K V : Type} [Ord K] [TransOrd K] [LawfulEqOrd K]
    {rows : List (K × V)} {changes : List (K × Option V)} {facts : List (K × V)}
    (hrows : rows.Pairwise KeyLt) (hchanges : changes.Pairwise KeyLt)
    (hfacts : facts.Pairwise KeyLt) (row : K → Option V) (change : K → Option (Option V))
    (hrow : ∀ k v, (k, v) ∈ rows ↔ row k = some v)
    (hchange : ∀ k c, (k, c) ∈ changes ↔ change k = some c)
    (hfact : ∀ k v, (k, v) ∈ facts ↔ (change k).getD (row k) = some v) :
    mergeChanges rows changes = facts := by
  obtain ⟨hsorted, hmem⟩ := mergeChanges_spec hrows hchanges
  refine eq_of_sorted hsorted hfacts fun e => ?_
  obtain ⟨k, v⟩ := e
  rw [hmem, hfact]
  simp only [hrow, hchange]
  cases hword : change k with
  | none => simp
  | some c => simp

end Lithograph.Library
