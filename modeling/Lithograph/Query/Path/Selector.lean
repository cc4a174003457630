/-
  File:      Lithograph/Query/Path/Selector.lean
  Subject:   Sorting and selecting paths (`query/completeness/path/selector.rs`).

  The sort merges runs of slots from one buffer into another. A slice index out of its range is an
  error here and a panic in the code. Left out: memory and cancellation.

  * **`selector_keeps`**: what each selector leaves of the candidates between two nodes.
-/
import Lithograph.Query.Path.Execute
import Lithograph.Library.StableSort
import Mathlib.Data.List.Dedup
import Mathlib.Data.Finset.Card

namespace Lithograph.Query.Path.Selector

open Std (ExtTreeMap)
open Library Storage

variable {V : Type}

/-! ## 1. The sort -/

/-- The loop of `compare_paths` over two relationships at a time. -/
def compareIds : List (RelationshipRecord × RelationshipRecord) → Ordering
  | [] => .eq
  | (left, right) :: rest =>
    let ordering := compare left.id right.id
    if ordering = .eq then compareIds rest else ordering

def comparePaths (left right : PathState V) : Ordering :=
  let length := compare left.relationships.length right.relationships.length
  if length = .eq then compareIds (left.relationships.zip right.relationships) else length

/-- A buffer of the sort. -/
abbrev Slots (V : Type) := List (Option (PathState V))

/-- Whether the next path is the one on the left. -/
def chooseLeft (source : Slots V) (left middle right stop : Nat) : QueryResult Bool :=
  if middle ≤ left then .ok false
  else if stop ≤ right then .ok true
  else
    match source[left]?.join with
    | none => .error (.internal "path sort left state is missing")
    | some leftState =>
      match source[right]?.join with
      | none => .error (.internal "path sort right state is missing")
      | some rightState => .ok (comparePaths leftState rightState ≠ .gt)

/-- `*destination = source[index].take()`. -/
def takeSlot (source target : Slots V) (index destination : Nat) :
    QueryResult (Slots V × Slots V) :=
  match source[index]? with
  | none => .error (.internal "index out of bounds")
  | some slot => .ok (source.set index none, target.set destination slot)

/-- The loop of `merge_path_run` over the destinations. -/
def mergeSlots (middle stop : Nat) (source target : Slots V) (left right : Nat) :
    List Nat → QueryResult (Slots V × Slots V)
  | [] => .ok (source, target)
  | destination :: rest => do
    let leftward ← chooseLeft source left middle right stop
    if leftward then
      let (source, target) ← takeSlot source target left destination
      mergeSlots middle stop source target (left + 1) right rest
    else
      let (source, target) ← takeSlot source target right destination
      mergeSlots middle stop source target left (right + 1) rest

def mergePathRun (source target : Slots V) (start middle stop : Nat) :
    QueryResult (Slots V × Slots V) :=
  mergeSlots middle stop source target start middle (List.range' start (stop - start))

/-- `(0..length).step_by(step)`. -/
def stepBy (length step : Nat) : List Nat :=
  List.range' 0 ((length + step - 1) / step) step

/-- The pass over the runs of one width. -/
def mergePass (length width : Nat) (source target : Slots V) : QueryResult (Slots V × Slots V) :=
  (stepBy length (2 * width)).foldlM (fun slots start => do
    let middle := min (start + width) length
    let stop := min (middle + width) length
    mergePathRun slots.1 slots.2 start middle stop) (source, target)

/-- `while width < length`. -/
def mergeWidths (length width : Nat) (positive : 0 < width) (source target : Slots V) :
    QueryResult (Slots V) :=
  if width < length then do
    let (source, target) ← mergePass length width source target
    mergeWidths length (2 * width) (Nat.mul_pos Nat.two_pos positive) target source
  else .ok source
termination_by length - width

def sortPaths (paths : List (PathState V)) : QueryResult (List (PathState V)) := do
  let length := paths.length
  let sorted ← mergeWidths length 1 Nat.one_pos (paths.map some) (List.replicate length none)
  sorted.mapM fun state =>
    match state with
    | none => .error (.internal "sorted path state is missing")
    | some state => .ok state

/-! ## 2. The selection -/

/-- The loop of `SHORTEST k GROUPS`; `lengths` is the set of the lengths seen. -/
def takeGroups (count : Nat) (lengths : ExtTreeMap Nat Unit) :
    List (PathState V) → List (PathState V)
  | [] => []
  | path :: rest =>
    let lengths := lengths.insert path.relationships.length ()
    if count < lengths.size then [] else path :: takeGroups count lengths rest

/-- The arms of `match selector.kind`, on the sorted paths of a partition. -/
def extendOutput (selector : PathSelector) (paths : List (PathState V)) : List (PathState V) :=
  match selector.kind with
  | .any | .shortestPaths => paths.take selector.count
  | .anyShortest => paths.take 1
  | .allShortest =>
    match paths.head?.map (·.relationships.length) with
    | some length => paths.takeWhile (·.relationships.length = length)
    | none => []
  | .shortestGroups => takeGroups selector.count ∅ paths
  | .all => paths

/-- `partitions.entry(..).or_default().push(state)`. -/
def pushState (partitions : ExtTreeMap (Option NodeId × Option NodeId) (List (PathState V)))
    (state : PathState V) : ExtTreeMap (Option NodeId × Option NodeId) (List (PathState V)) :=
  partitions.insert state.ends ((partitions[state.ends]?).getD [] ++ [state])

def applySelector (states : List (PathState V)) (selector : PathSelector) :
    QueryResult (List (PathState V)) :=
  if selector.kind = .all then .ok states
  else do
    let partitions := states.foldl pushState ∅
    partitions.toList.foldlM (fun output entry => do
      let paths ← sortPaths entry.2
      pure (output ++ extendOutput selector paths)) []

/-! ## 3. The order -/

theorem compareIds_zip : ∀ {left right : List RelationshipRecord}, left.length = right.length →
    (compareIds (left.zip right) = .gt ↔ right.map (·.id) < left.map (·.id))
  | [], [], _ => iff_of_false Ordering.noConfusion (lt_irrefl _)
  | l :: left, r :: right, h => by
    have ih := compareIds_zip (Nat.succ.inj h)
    have hcons : (r :: right).map (·.id) < (l :: left).map (·.id) ↔
        r.id < l.id ∨ r.id = l.id ∧ right.map (·.id) < left.map (·.id) := List.cons_lt_cons_iff
    rw [List.zip_cons_cons, compareIds, hcons]
    split
    · next heq =>
      have heq : l.id = r.id := Int.compare_eq_eq.mp heq
      rw [ih, heq]
      exact ⟨fun hlt => Or.inr ⟨rfl, hlt⟩, fun hlt => hlt.elim (absurd · (lt_irrefl _)) And.right⟩
    · next hne =>
      have hne : r.id ≠ l.id := fun heq => hne (Int.compare_eq_eq.mpr heq.symm)
      rw [Int.compare_eq_gt]
      exact ⟨Or.inl, fun hlt => hlt.elim id fun hsame => absurd hsame.1 hne⟩

theorem pathsOrdered_iff (left right : PathState V) : pathsOrdered left right = true ↔
    left.relationships.length < right.relationships.length ∨
      left.relationships.length = right.relationships.length ∧
        left.relationships.map (·.id) ≤ right.relationships.map (·.id) := by
  rw [pathsOrdered, Bool.or_eq_true, Bool.and_eq_true, decide_eq_true_iff, decide_eq_true_iff,
    beq_iff_eq]

theorem comparePaths_ne_gt (left right : PathState V) :
    comparePaths left right ≠ .gt ↔ pathsOrdered left right = true := by
  rw [pathsOrdered_iff, comparePaths]
  split
  · next heq =>
    have heq := Nat.compare_eq_eq.mp heq
    rw [ne_eq, compareIds_zip heq, not_lt]
    exact ⟨fun hle => Or.inr ⟨heq, hle⟩, fun h => h.elim (by omega) And.right⟩
  · next hne =>
    have hne : left.relationships.length ≠ right.relationships.length :=
      fun heq => hne (Nat.compare_eq_eq.mpr heq)
    rw [Nat.compare_ne_gt]
    exact ⟨fun hle => Or.inl (by omega),
      fun h => h.elim Nat.le_of_lt fun hsame => absurd hsame.1 hne⟩

theorem pathsOrdered_trans (a b c : PathState V) (hab : pathsOrdered a b = true)
    (hbc : pathsOrdered b c = true) : pathsOrdered a c = true := by
  rw [pathsOrdered_iff] at hab hbc ⊢
  obtain hab | ⟨hab, hids⟩ := hab
  · exact Or.inl (by omega)
  · obtain hbc | ⟨hbc, hids'⟩ := hbc
    · exact Or.inl (by omega)
    · exact Or.inr ⟨hab.trans hbc, hids.trans hids'⟩

theorem pathsOrdered_total (a b : PathState V) : (pathsOrdered a b || pathsOrdered b a) = true := by
  rw [Bool.or_eq_true, pathsOrdered_iff, pathsOrdered_iff]
  obtain hlt | heq | hlt := Nat.lt_trichotomy a.relationships.length b.relationships.length
  · exact Or.inl (Or.inl hlt)
  · exact (le_total _ _).imp (fun h => Or.inr ⟨heq, h⟩) (fun h => Or.inr ⟨heq.symm, h⟩)
  · exact Or.inr (Or.inl hlt)

theorem length_le_of_ordered {a b : PathState V} (h : pathsOrdered a b = true) :
    a.relationships.length ≤ b.relationships.length := by
  rw [pathsOrdered_iff] at h
  exact h.elim Nat.le_of_lt fun hsame => Nat.le_of_eq hsame.1

/-! ## 4. One merge -/

/-- `count` slots whose paths were taken. -/
abbrev taken (V : Type) (count : Nat) : Slots V := List.replicate count none

theorem getElem?_middle {α : Type} (A C : List α) (a : α) : (A ++ a :: C)[A.length]? = some a := by
  rw [List.getElem?_append_right (Nat.le_refl _), Nat.sub_self, List.getElem?_cons_zero]

theorem takeSlot_at (A C : Slots V) (p : PathState V) (S : Slots V) (old : Option (PathState V))
    (T : Slots V) :
    takeSlot (A ++ some p :: C) (S ++ old :: T) A.length S.length =
      .ok (A ++ none :: C, S ++ some p :: T) := by
  rw [takeSlot, getElem?_middle]
  dsimp only
  rw [List.set_append_right _ _ (Nat.le_refl _), List.set_append_right _ _ (Nat.le_refl _),
    Nat.sub_self, Nat.sub_self, List.set_cons_zero, List.set_cons_zero]

theorem chooseLeft_both {source : Slots V} {left middle right stop : Nat} {l r : PathState V}
    (hleft : left < middle) (hright : right < stop)
    (hl : source[left]? = some (some l)) (hr : source[right]? = some (some r)) :
    chooseLeft source left middle right stop = .ok (pathsOrdered l r) := by
  have hsame : decide (comparePaths l r ≠ .gt) = pathsOrdered l r := by
    rw [Bool.eq_iff_iff, decide_eq_true_iff, comparePaths_ne_gt]
  rw [chooseLeft, if_neg (by omega), if_neg (by omega), hl, hr, ← hsame]
  rfl

section

variable {middle stop n : Nat} {p : PathState V} {A C S T : Slots V} {old : Option (PathState V)}

theorem mergeSlots_left {right : Nat}
    (h : chooseLeft (A ++ some p :: C) A.length middle right stop = .ok true) :
    mergeSlots middle stop (A ++ some p :: C) (S ++ old :: T) A.length right
        (List.range' S.length (n + 1)) =
      mergeSlots middle stop ((A ++ [none]) ++ C) ((S ++ [some p]) ++ T) (A ++ [none]).length right
        (List.range' (S ++ [some p]).length n) := by
  rw [List.range'_succ, mergeSlots, h, ok_bind, if_pos rfl, takeSlot_at, ok_bind,
    List.length_append, List.length_append, List.append_assoc, List.append_assoc]
  rfl

theorem mergeSlots_right {left : Nat}
    (h : chooseLeft (A ++ some p :: C) left middle A.length stop = .ok false) :
    mergeSlots middle stop (A ++ some p :: C) (S ++ old :: T) left A.length
        (List.range' S.length (n + 1)) =
      mergeSlots middle stop ((A ++ [none]) ++ C) ((S ++ [some p]) ++ T) left (A ++ [none]).length
        (List.range' (S ++ [some p]).length n) := by
  rw [List.range'_succ, mergeSlots, h, ok_bind, if_neg Bool.false_ne_true, takeSlot_at, ok_bind,
    List.length_append, List.length_append, List.append_assoc, List.append_assoc]
  rfl

end

/-- Merging the two runs empties their slots and leaves `merged` at the destination. -/
def Merges (ls rs merged : List (PathState V)) : Prop :=
  ∀ (A B C S old T : Slots V) {middle right stop : Nat}, old.length = ls.length + rs.length →
    middle = A.length + ls.length → right = middle + B.length → stop = right + rs.length →
    mergeSlots middle stop (A ++ (ls.map some ++ (B ++ (rs.map some ++ C)))) (S ++ (old ++ T))
        A.length right (List.range' S.length old.length) =
      .ok (A ++ (taken V ls.length ++ (B ++ (taken V rs.length ++ C))), S ++ (merged.map some ++ T))

theorem Merges.nil : Merges (V := V) [] [] [] := by
  intro A B C S old T middle right stop hold _ _ _
  obtain rfl := List.length_eq_zero_iff.mp hold
  rfl

theorem Merges.left {l : PathState V} {ls rs merged : List (PathState V)}
    (hfirst : ∀ r ∈ rs.head?, pathsOrdered l r = true) (h : Merges ls rs merged) :
    Merges (l :: ls) rs (l :: merged) := by
  intro A B C S old T middle right stop hold hmiddle hright hstop
  rw [List.length_cons] at hold hmiddle
  obtain ⟨o, old, rfl⟩ := List.exists_cons_of_length_pos (l := old) (by omega)
  rw [List.length_cons] at hold
  have hchoose : chooseLeft (A ++ some l :: (ls.map some ++ (B ++ (rs.map some ++ C)))) A.length
      middle right stop = .ok true := by
    cases rs with
    | nil =>
      rw [List.length_nil] at hstop
      rw [chooseLeft, if_neg (by omega), if_pos (by omega)]
    | cons r rs =>
      rw [List.length_cons] at hstop
      have hat : right = (A ++ some l :: (ls.map some ++ B)).length := by
        rw [List.length_append, List.length_cons, List.length_append, List.length_map]
        omega
      have hr : (A ++ some l :: (ls.map some ++ (B ++ ((r :: rs).map some ++ C))))[right]? =
          some (some r) := by
        rw [hat, ← getElem?_middle (A ++ some l :: (ls.map some ++ B)) (rs.map some ++ C)]
        simp only [List.append_assoc, List.cons_append, List.map_cons]
      rw [chooseLeft_both (by omega) (by omega) (getElem?_middle _ _ _) hr, hfirst r rfl]
  have ih := h (A ++ [none]) B C (S ++ [some l]) old T (by omega)
    (by rw [List.length_append, hmiddle, List.length_singleton]; omega) hright hstop
  rw [List.map_cons, List.cons_append, List.cons_append, List.length_cons,
    mergeSlots_left hchoose, ih, List.append_assoc, List.append_assoc]
  rfl

theorem Merges.right {r : PathState V} {ls rs merged : List (PathState V)}
    (hfirst : ∀ l ∈ ls.head?, pathsOrdered l r = false) (h : Merges ls rs merged) :
    Merges ls (r :: rs) (r :: merged) := by
  intro A B C S old T middle right stop hold hmiddle hright hstop
  rw [List.length_cons] at hold hstop
  obtain ⟨o, old, rfl⟩ := List.exists_cons_of_length_pos (l := old) (by omega)
  rw [List.length_cons] at hold
  have hat : right = (A ++ (ls.map some ++ B)).length := by
    rw [List.length_append, List.length_append, List.length_map]
    omega
  have hchoose : chooseLeft ((A ++ (ls.map some ++ B)) ++ some r :: (rs.map some ++ C)) A.length
      middle right stop = .ok false := by
    cases ls with
    | nil =>
      rw [List.length_nil] at hmiddle
      rw [chooseLeft, if_pos (by omega)]
    | cons l ls =>
      rw [List.length_cons] at hmiddle
      have hl : ((A ++ ((l :: ls).map some ++ B)) ++ some r :: (rs.map some ++ C))[A.length]? =
          some (some l) := by
        rw [List.append_assoc]
        exact getElem?_middle _ _ _
      have hr := getElem?_middle (A ++ ((l :: ls).map some ++ B)) (rs.map some ++ C) (some r)
      rw [← hat] at hr
      rw [chooseLeft_both (by omega) (by omega) hl hr, hfirst l rfl]
  have hbehind : right + 1 = middle + (B ++ [none]).length := by
    rw [List.length_append, hright]
    rfl
  have hend : stop = right + 1 + rs.length := by omega
  have ih := h A (B ++ [none]) C (S ++ [some r]) old T (by omega) hmiddle hbehind hend
  have hsource : A ++ (ls.map some ++ (B ++ ((r :: rs).map some ++ C))) =
      (A ++ (ls.map some ++ B)) ++ some r :: (rs.map some ++ C) := by
    simp only [List.append_assoc, List.map_cons, List.cons_append]
  have hnext : (A ++ (ls.map some ++ B)) ++ [none] ++ (rs.map some ++ C) =
      A ++ (ls.map some ++ ((B ++ [none]) ++ (rs.map some ++ C))) := by
    simp only [List.append_assoc]
  rw [hat] at hchoose ⊢
  rw [hsource, List.cons_append, List.length_cons, mergeSlots_right hchoose, hnext,
    List.length_append, ← hat]
  refine ih.trans (congrArg Except.ok (Prod.ext ?_ ?_))
  · simp only [List.append_assoc, List.length_cons, taken, List.replicate_succ, List.cons_append,
      List.nil_append]
  · exact List.append_assoc S [some r] _

/-- **Merging two runs is merging two lists.** -/
theorem merges : ∀ ls rs : List (PathState V), Merges ls rs (ls.merge rs pathsOrdered)
  | [], [] => by
    rw [List.nil_merge]
    exact .nil
  | [], r :: rs => by
    have ih := merges [] rs
    rw [List.nil_merge] at ih ⊢
    exact .right (fun _ h => by cases h) ih
  | l :: ls, [] => by
    have ih := merges ls []
    rw [List.merge_right] at ih ⊢
    exact .left (fun _ h => by cases h) ih
  | l :: ls, r :: rs => by
    cases hle : pathsOrdered l r with
    | true =>
      rw [List.cons_merge_cons_pos _ _ _ hle]
      exact .left (fun _ h => by cases h; exact hle) (merges ls (r :: rs))
    | false =>
      rw [List.cons_merge_cons_neg _ _ _ (by rw [hle]; exact Bool.false_ne_true)]
      exact .right (fun _ h => by cases h; exact hle) (merges (l :: ls) rs)

/-! ## 5. The passes -/

theorem mergePathRun_runs (ls rs : List (PathState V)) {C S old T : Slots V}
    {start middle stop : Nat}
    (hold : old.length = ls.length + rs.length) (hstart : start = S.length)
    (hmiddle : middle = start + ls.length) (hstop : stop = middle + rs.length) :
    mergePathRun (taken V S.length ++ (ls.map some ++ (rs.map some ++ C))) (S ++ (old ++ T)) start
        middle stop =
      .ok (taken V stop ++ C, S ++ ((ls.merge rs pathsOrdered).map some ++ T)) := by
  have hmerge := merges ls rs (taken V S.length) [] C S old T hold
    (by rw [List.length_replicate, hmiddle, hstart]) (Nat.add_zero middle).symm hstop
  have hcount : stop - start = old.length := by omega
  rw [List.length_replicate, List.nil_append, List.nil_append] at hmerge
  rw [mergePathRun, hcount, hstart, hmerge]
  have htaken : taken V stop = taken V S.length ++ (taken V ls.length ++ taken V rs.length) := by
    rw [List.replicate_append_replicate, List.replicate_append_replicate]
    congr 1
    omega
  rw [htaken, List.append_assoc, List.append_assoc]

/-- One start of a pass. -/
def mergeAt (length width : Nat) (slots : Slots V × Slots V) (start : Nat) :
    QueryResult (Slots V × Slots V) :=
  mergePathRun slots.1 slots.2 start (min (start + width) length)
    (min (min (start + width) length + width) length)

theorem stepBy_runs {width : Nat} (hwidth : 0 < width) : ∀ {runs : List (List (PathState V))},
    Full width runs →
    (runs.flatten.length + 2 * width - 1) / (2 * width) = (runs.length + 1) / 2
  | [], _ => by
    rw [List.flatten_nil, List.length_nil, List.length_nil, Nat.zero_add,
      Nat.div_eq_of_lt (by omega), Nat.div_eq_of_lt (by omega)]
  | [run], h => by
    have hpos := h.1
    have hle := h.2
    rw [List.flatten_singleton, List.length_singleton]
    exact Nat.div_eq_of_lt_le (by omega) (by omega)
  | [first, second], h => by
    obtain ⟨hfirst, hpos, hle⟩ := h
    exact Nat.div_eq_of_lt_le (by simp; omega) (by simp; omega)
  | first :: second :: third :: runs, h => by
    have ih := stepBy_runs hwidth h.tail.tail
    rw [List.length_cons] at ih
    rw [List.flatten_cons, List.flatten_cons, List.length_append, List.length_append, h.1, h.2.1,
      List.length_cons, List.length_cons, List.length_cons]
    generalize (third :: runs).flatten.length = n at ih ⊢
    have hshift : width + (width + n) + 2 * width - 1 = n + 2 * width - 1 + 2 * width := by omega
    rw [hshift, Nat.add_div_right _ (by omega), ih]
    omega

/-- **A pass merges the runs two by two.** -/
theorem mergeStarts_runs {length width : Nat} (hwidth : 0 < width) :
    ∀ {runs : List (List (PathState V))}, Full width runs → ∀ (start : Nat) (S old : Slots V),
    (runs ≠ [] → start = S.length) → old.length = runs.flatten.length →
    S.length + runs.flatten.length = length →
    (List.range' start ((runs.length + 1) / 2) (2 * width)).foldlM (mergeAt length width)
        (taken V S.length ++ runs.flatten.map some, S ++ old) =
      .ok (taken V length, S ++ (pairMerge pathsOrdered runs).flatten.map some)
  | [], _, start, S, old, _, hold, hlength => by
    obtain rfl := List.length_eq_zero_iff.mp hold
    rw [List.flatten_nil, List.length_nil, Nat.add_zero] at hlength
    rw [List.length_nil, Nat.div_eq_of_lt (by omega), List.range'_zero, List.foldlM_nil,
      List.flatten_nil, List.map_nil, List.append_nil, hlength]
    rfl
  | [run], h, start, S, old, hstart, hold, hlength => by
    have hstart := hstart (List.cons_ne_nil _ _)
    have hle := h.2
    rw [List.flatten_singleton] at hold hlength
    have hmiddle : min (start + width) length = start + run.length := by omega
    have hstop : min (start + run.length + width) length =
        start + run.length + ([] : List (PathState V)).length := by
      rw [List.length_nil]
      omega
    have hrun : mergePathRun (taken V S.length ++ (run.map some ++ ([].map some ++ [])))
        (S ++ (old ++ [])) start _ _ = _ := mergePathRun_runs run [] hold hstart rfl rfl
    rw [List.merge_right, List.map_nil, List.append_nil, List.append_nil, List.append_nil,
      List.append_nil] at hrun
    have hall : start + run.length + ([] : List (PathState V)).length = length := by
      rw [← hlength, hstart]
      rfl
    rw [List.length_singleton, List.range'_succ, List.foldlM_cons, mergeAt, hmiddle, hstop,
      List.flatten_singleton, hrun, ok_bind, hall]
    exact congrArg (fun merged => Except.ok (taken V length, S ++ merged))
      (congrArg (List.map some) (List.flatten_singleton).symm)
  | first :: second :: runs, h, start, S, old, hstart, hold, hlength => by
    have hstart := hstart (List.cons_ne_nil _ _)
    have hfirst := h.1
    have hsecond := h.tail.head_le
    rw [List.flatten_cons, List.flatten_cons, List.length_append, List.length_append]
      at hold hlength
    have hmiddle : min (start + width) length = start + first.length := by omega
    have hstop : min (start + first.length + width) length =
        start + first.length + second.length := by
      cases runs with
      | nil =>
        rw [List.flatten_nil, List.length_nil] at hlength
        omega
      | cons third runs =>
        have hfull : second.length = width := h.2.1
        omega
    -- the slots that this pair fills, and those behind them
    obtain ⟨filled, behind, rfl, hfilled⟩ : ∃ filled behind, old = filled ++ behind ∧
        filled.length = first.length + second.length :=
      ⟨old.take (first.length + second.length), old.drop (first.length + second.length),
        (List.take_append_drop _ _).symm, by rw [List.length_take]; omega⟩
    rw [List.length_append] at hold
    have hpair : mergePathRun (taken V S.length ++ (first.map some ++ (second.map some ++
        runs.flatten.map some))) (S ++ (filled ++ behind)) start _ _ = _ :=
      mergePathRun_runs first second hfilled hstart rfl rfl
    have hreached : start + first.length + second.length =
        (S ++ (first.merge second pathsOrdered).map some).length := by
      rw [List.length_append, List.length_map, List.length_merge]
      omega
    have hnext : runs ≠ [] →
        start + 2 * width = (S ++ (first.merge second pathsOrdered).map some).length := by
      intro hne
      obtain ⟨third, runs, rfl⟩ := List.exists_cons_of_ne_nil hne
      have hfull : second.length = width := h.2.1
      omega
    have hend : (S ++ (first.merge second pathsOrdered).map some).length + runs.flatten.length =
        length := by omega
    have ih := mergeStarts_runs hwidth h.tail.tail (start + 2 * width)
      (S ++ (first.merge second pathsOrdered).map some) behind hnext (by omega) hend
    have hcount : ((first :: second :: runs).length + 1) / 2 = (runs.length + 1) / 2 + 1 := by
      rw [List.length_cons, List.length_cons]
      omega
    rw [hcount, List.range'_succ, List.foldlM_cons, mergeAt, hmiddle, hstop, List.flatten_cons,
      List.flatten_cons, List.map_append, List.map_append, hpair, ok_bind, hreached,
      ← List.append_assoc, ih, pairMerge, List.flatten_cons, List.map_append, List.append_assoc]

theorem mergePass_runs {length width : Nat} (hwidth : 0 < width) {runs : List (List (PathState V))}
    (h : Full width runs) (hlength : runs.flatten.length = length) {target : Slots V}
    (htarget : target.length = length) :
    mergePass length width (runs.flatten.map some) target =
      .ok (taken V length, (pairMerge pathsOrdered runs).flatten.map some) := by
  have hstarts := mergeStarts_runs hwidth h 0 [] target (fun _ => rfl) (htarget.trans hlength.symm)
    ((Nat.zero_add _).trans hlength)
  rw [← stepBy_runs hwidth h, hlength] at hstarts
  exact hstarts

theorem length_flatten_pairMerge : ∀ runs : List (List (PathState V)),
    (pairMerge pathsOrdered runs).flatten.length = runs.flatten.length
  | [] => rfl
  | [_] => rfl
  | first :: second :: runs => by
    have ih := length_flatten_pairMerge runs
    rw [pairMerge, List.flatten_cons, List.length_append, List.length_merge, ih, List.flatten_cons,
      List.flatten_cons, List.length_append, List.length_append, Nat.add_assoc]

variable {paths : List (PathState V)}

/-- **The widths double until one run is left.** -/
theorem mergeWidths_runs {length width : Nat} (hwidth : 0 < width)
    {runs : List (List (PathState V))} (hruns : Runs pathsOrdered paths runs)
    (hfull : Full width runs) (hlength : runs.flatten.length = length) {target : Slots V}
    (htarget : target.length = length) :
    ∃ sorted, mergeWidths length width hwidth (runs.flatten.map some) target =
      .ok (sorted.map some) ∧ StableSort pathsOrdered paths sorted := by
  rw [mergeWidths]
  split
  · rw [mergePass_runs hwidth hfull hlength htarget, ok_bind]
    exact mergeWidths_runs _ (hruns.pairMerge pathsOrdered_trans pathsOrdered_total)
      (hfull.pairMerge hwidth) ((length_flatten_pairMerge runs).trans hlength)
      (List.length_replicate)
  · next hdone =>
    exact ⟨runs.flatten, rfl, hruns.done (hfull.length_le_one hwidth (by omega))⟩
termination_by length - width

/-- **The sort ends, finds every path and is stable.** -/
theorem sortPaths_stable (paths : List (PathState V)) :
    ∃ sorted, sortPaths paths = .ok sorted ∧ StableSort pathsOrdered paths sorted := by
  have hflat := flatten_singletons paths
  have htarget : (taken V paths.length).length = paths.length := List.length_replicate
  obtain ⟨sorted, hwidths, hsorted⟩ := mergeWidths_runs Nat.one_pos (runs_singletons paths)
    (full_singletons paths) (congrArg List.length hflat) htarget
  rw [hflat] at hwidths
  refine ⟨sorted, ?_, hsorted⟩
  rw [sortPaths, hwidths, ok_bind, List.mapM_map]
  exact List.mapM_pure.trans (congrArg Except.ok (List.map_id' sorted))

theorem sortPaths_eq (paths : List (PathState V)) :
    sortPaths paths = .ok (paths.mergeSort pathsOrdered) := by
  obtain ⟨sorted, hsort, hsorted⟩ := sortPaths_stable paths
  have hmerge := mergeSort_stable pathsOrdered_trans pathsOrdered_total paths
  rw [hsort, hsorted.unique pathsOrdered_total hmerge]

/-! ## 6. Groups of one length -/

/-- The lengths of the paths. -/
def lengthsOf (paths : List (PathState V)) : Finset Nat :=
  (paths.map (·.relationships.length)).toFinset

/-- How many lengths among the paths are shorter. -/
def shorterLengths (paths : List (PathState V)) (length : Nat) : Nat :=
  ((lengthsOf paths).filter (· < length)).card

theorem mem_lengthsOf {n : Nat} :
    n ∈ lengthsOf paths ↔ ∃ path ∈ paths, path.relationships.length = n := by
  rw [lengthsOf, List.mem_toFinset, List.mem_map]

theorem shorterLengths_mono (paths : List (PathState V)) {n m : Nat} (h : n ≤ m) :
    shorterLengths paths n ≤ shorterLengths paths m :=
  Finset.card_le_card (Finset.monotone_filter_right _ fun _ _ hlt => Nat.lt_of_lt_of_le hlt h)

theorem size_eq_card {lengths : ExtTreeMap Nat Unit} {seen : Finset Nat}
    (h : ∀ n, n ∈ lengths ↔ n ∈ seen) : lengths.size = seen.card := by
  have hnodup : lengths.keys.Nodup := ExtTreeMap.nodup_keys
  have hkeys : lengths.keys.toFinset = seen := by
    refine Finset.ext fun n => ?_
    rw [List.mem_toFinset, ExtTreeMap.mem_keys, h]
  rw [← ExtTreeMap.length_keys, ← hkeys, List.toFinset_card_of_nodup hnodup]

theorem insert_lengthsOf {before behind : List (PathState V)} {path : PathState V}
    (hbefore : ∀ p ∈ before, p.relationships.length ≤ path.relationships.length)
    (hbehind : ∀ p ∈ behind, path.relationships.length ≤ p.relationships.length) :
    (insert path.relationships.length (lengthsOf before)).card =
      shorterLengths (before ++ path :: behind) path.relationships.length + 1 := by
  have hsame : insert path.relationships.length (lengthsOf before) =
      insert path.relationships.length ((lengthsOf (before ++ path :: behind)).filter
        (· < path.relationships.length)) := by
    refine Finset.ext fun n => ?_
    rw [Finset.mem_insert, Finset.mem_insert, Finset.mem_filter, mem_lengthsOf, mem_lengthsOf]
    constructor
    · intro h
      obtain h | ⟨p, hp, rfl⟩ := h
      · exact Or.inl h
      · obtain hlt | heq := Nat.lt_or_eq_of_le (hbefore p hp)
        · exact Or.inr ⟨⟨p, List.mem_append_left _ hp, rfl⟩, hlt⟩
        · exact Or.inl heq
    · intro h
      obtain h | ⟨⟨p, hp, rfl⟩, hlt⟩ := h
      · exact Or.inl h
      · obtain hp | hp := List.mem_append.mp hp
        · exact Or.inr ⟨p, hp, rfl⟩
        · obtain rfl | hp := List.mem_cons.mp hp
          · exact absurd hlt (Nat.lt_irrefl _)
          · exact absurd (hbehind p hp) (Nat.not_le.mpr hlt)
  rw [hsame, Finset.card_insert_of_notMem, shorterLengths]
  intro h
  exact Nat.lt_irrefl _ (Finset.mem_filter.mp h).2

/-- **The loop keeps the paths with fewer than `count` lengths below theirs.** -/
theorem takeGroups_eq (count : Nat) : ∀ {before behind : List (PathState V)}
    {lengths : ExtTreeMap Nat Unit}, (∀ n, n ∈ lengths ↔ n ∈ lengthsOf before) →
    (before ++ behind).Pairwise (fun p q => p.relationships.length ≤ q.relationships.length) →
    takeGroups count lengths behind = behind.filter fun p =>
      shorterLengths (before ++ behind) p.relationships.length < count
  | _, [], _, _, _ => rfl
  | before, path :: behind, lengths, hseen, hsorted => by
    obtain ⟨_, hrest, hcross⟩ := List.pairwise_append.mp hsorted
    have hbehind := List.pairwise_cons.mp hrest
    have hinsert : ∀ n, n ∈ lengths.insert path.relationships.length () ↔
        n ∈ insert path.relationships.length (lengthsOf before) := by
      intro n
      rw [ExtTreeMap.mem_insert, Finset.mem_insert, hseen, Nat.compare_eq_eq, eq_comm]
    have hcard := insert_lengthsOf (fun p hp => hcross p hp path (.head _)) hbehind.1
    have hsize := (size_eq_card hinsert).trans hcard
    rw [takeGroups, hsize]
    split
    · next hmany =>
      refine (List.filter_eq_nil_iff.mpr fun p hp => ?_).symm
      have hle : path.relationships.length ≤ p.relationships.length := by
        obtain rfl | hp := List.mem_cons.mp hp
        · exact Nat.le_refl _
        · exact hbehind.1 p hp
      have hmono := shorterLengths_mono (before ++ path :: behind) hle
      rw [decide_eq_true_iff]
      omega
    · next hfew =>
      have hadd : ∀ n, n ∈ lengths.insert path.relationships.length () ↔
          n ∈ lengthsOf (before ++ [path]) := by
        intro n
        rw [hinsert, Finset.mem_insert, mem_lengthsOf, mem_lengthsOf]
        constructor
        · intro h
          obtain rfl | ⟨p, hp, rfl⟩ := h
          · exact ⟨path, List.mem_append_right _ (.head _), rfl⟩
          · exact ⟨p, List.mem_append_left _ hp, rfl⟩
        · intro h
          obtain ⟨p, hp, rfl⟩ := h
          obtain hp | hp := List.mem_append.mp hp
          · exact Or.inr ⟨p, hp, rfl⟩
          · exact Or.inl (congrArg (·.relationships.length) (List.mem_singleton.mp hp))
      have hsplit : before ++ path :: behind = (before ++ [path]) ++ behind :=
        List.append_cons before path behind
      have ih := takeGroups_eq count hadd (hsplit ▸ hsorted)
      rw [ih, ← hsplit, List.filter_cons_of_pos (by rw [decide_eq_true_iff]; omega)]

theorem mem_take_ascending {n : Nat} : ∀ {l : List Nat} (count : Nat), l.Pairwise (· < ·) →
    n ∈ l → (n ∈ l.take count ↔ (l.filter (· < n)).length < count)
  | [], _, _, hn => absurd hn List.not_mem_nil
  | m :: l, 0, _, _ => by
    exact iff_of_false List.not_mem_nil (Nat.not_lt_zero _)
  | m :: l, count + 1, hl, hn => by
    obtain ⟨hm, hl⟩ := List.pairwise_cons.mp hl
    rw [List.take_succ_cons, List.mem_cons]
    obtain rfl | hn := List.mem_cons.mp hn
    · have hnone : (n :: l).filter (· < n) = [] := by
        refine List.filter_eq_nil_iff.mpr fun k hk => ?_
        rw [decide_eq_true_iff]
        obtain rfl | hk := List.mem_cons.mp hk
        · exact Nat.lt_irrefl _
        · exact Nat.lt_asymm (hm k hk)
      rw [hnone]
      exact iff_of_true (Or.inl rfl) (Nat.succ_pos count)
    · have hlt := hm n hn
      have ih := mem_take_ascending count hl hn
      rw [List.filter_cons_of_pos (by rwa [decide_eq_true_iff]), List.length_cons, ih]
      exact ⟨fun h => h.elim (fun h => absurd h (by omega)) Nat.succ_lt_succ,
        fun h => Or.inr (Nat.lt_of_succ_lt_succ h)⟩

theorem shortestGroups_eq (count : Nat)
    (hsorted : paths.Pairwise fun p q => p.relationships.length ≤ q.relationships.length) :
    shortestGroups count paths =
      paths.filter fun p => shorterLengths paths p.relationships.length < count := by
  have hle : ((paths.map (·.relationships.length)).dedup).Pairwise (· ≤ ·) :=
    (List.pairwise_map.mpr hsorted).sublist (List.dedup_sublist _)
  have hlt : ((paths.map (·.relationships.length)).dedup).Pairwise (· < ·) :=
    (hle.and (List.nodup_dedup _)).imp fun h => Nat.lt_of_le_of_ne h.1 h.2
  refine List.filter_congr fun p hp => ?_
  have hmem : p.relationships.length ∈ (paths.map (·.relationships.length)).dedup :=
    List.mem_dedup.mpr (List.mem_map_of_mem hp)
  have hcard : shorterLengths paths p.relationships.length =
      (((paths.map (·.relationships.length)).dedup).filter
        (· < p.relationships.length)).length := by
    have hnodup := (List.nodup_dedup (paths.map (·.relationships.length))).filter
      (· < p.relationships.length)
    rw [← List.toFinset_card_of_nodup hnodup, List.toFinset_filter, shorterLengths, lengthsOf]
    congr 1
    refine Finset.ext fun n => ?_
    rw [Finset.mem_filter, Finset.mem_filter, List.mem_toFinset, List.mem_toFinset, List.mem_dedup,
      decide_eq_true_iff]
  rw [decide_eq_decide, mem_take_ascending count hlt hmem, hcard]

theorem ordered_lengths {l paths : List (PathState V)} (h : StableSort pathsOrdered l paths) :
    paths.Pairwise fun p q => p.relationships.length ≤ q.relationships.length :=
  h.ordered.imp length_le_of_ordered

theorem extendOutput_eq (selector : PathSelector)
    (hsorted : paths.Pairwise fun p q => p.relationships.length ≤ q.relationships.length) :
    extendOutput selector paths = selector.take paths := by
  unfold extendOutput PathSelector.take
  cases selector.kind with
  | all | any | anyShortest | shortestPaths => rfl
  | allShortest =>
    cases paths with
    | nil => rfl
    | cons path paths => rfl
  | shortestGroups =>
    have hempty : ∀ n, n ∈ (∅ : ExtTreeMap Nat Unit) ↔ n ∈ lengthsOf ([] : List (PathState V)) :=
      fun n => iff_of_false ExtTreeMap.not_mem_empty (Finset.notMem_empty n)
    rw [shortestGroups_eq selector.count hsorted]
    exact takeGroups_eq selector.count hempty hsorted

/-! ## 7. Partitions -/

/-- The states between two nodes, in the order they came in. -/
def candidates (states : List (PathState V)) (ends : Option NodeId × Option NodeId) :
    List (PathState V) :=
  states.filter (·.ends = ends)

theorem getElem?_pushStates (ends : Option NodeId × Option NodeId) :
    ∀ (states : List (PathState V)) (partitions), (states.foldl pushState partitions)[ends]? =
      if ends ∈ states.map PathState.ends
      then some ((partitions[ends]?).getD [] ++ candidates states ends) else partitions[ends]?
  | [], partitions => rfl
  | state :: states, partitions => by
    rw [List.foldl_cons, getElem?_pushStates ends states, pushState, lookup_insert,
      List.map_cons, candidates, candidates]
    by_cases hends : ends = state.ends
    · subst hends
      have hfirst : (state :: states).filter (·.ends = state.ends) =
          state :: states.filter (·.ends = state.ends) :=
        List.filter_cons_of_pos (decide_eq_true rfl)
      rw [if_pos rfl, if_pos List.mem_cons_self, hfirst]
      split
      · rw [Option.getD_some, List.append_assoc, List.singleton_append]
      · next hlater =>
        have hnone : states.filter (·.ends = state.ends) = [] :=
          List.filter_eq_nil_iff.mpr fun p hp hends =>
            hlater (of_decide_eq_true hends ▸ List.mem_map_of_mem hp)
        rw [hnone]
    · have hskip : (state :: states).filter (·.ends = ends) = states.filter (·.ends = ends) :=
        List.filter_cons_of_neg (fun h => hends (of_decide_eq_true h).symm)
      rw [if_neg hends, hskip]
      simp only [List.mem_cons, hends, false_or]

/-- The pairs of ends that occur, in order. -/
def endsOf (states : List (PathState V)) : List (Option NodeId × Option NodeId) :=
  ((states.map PathState.ends).dedup).mergeSort fun a b => (compare a b).isLE

theorem mem_endsOf {states : List (PathState V)} {ends : Option NodeId × Option NodeId} :
    ends ∈ endsOf states ↔ ends ∈ states.map PathState.ends := by
  rw [endsOf, List.mem_mergeSort, List.mem_dedup]

variable (states : List (PathState V))

theorem nodup_endsOf : (endsOf states).Nodup :=
  (List.mergeSort_perm _ _).nodup_iff.mpr (List.nodup_dedup _)

theorem partitions_eq :
    (states.foldl pushState ∅).toList =
      (endsOf states).map fun ends => (ends, candidates states ends) := by
  have hlookup : ∀ ends, (states.foldl pushState ∅)[ends]? =
      if ends ∈ states.map PathState.ends then some (candidates states ends) else none := by
    intro ends
    rw [getElem?_pushStates, ExtTreeMap.getElem?_empty]
    rfl
  generalize states.foldl pushState ∅ = partitions at hlookup ⊢
  have hperm : partitions.keys.Perm (endsOf states) := by
    refine (List.perm_ext_iff_of_nodup ExtTreeMap.nodup_keys (nodup_endsOf states)).mpr
      fun ends => ?_
    rw [ExtTreeMap.mem_keys, mem_endsOf, ← ExtTreeMap.isSome_getElem?_iff_mem, hlookup]
    split
    · next h => exact iff_of_true rfl h
    · next h => exact iff_of_false Bool.false_ne_true h
  have hkeys : partitions.keys = endsOf states := by
    have hascending : partitions.keys.Pairwise fun a b => (compare a b).isLE = true :=
      ExtTreeMap.ordered_keys.imp fun hlt => Ordering.isLE_of_eq_lt hlt
    have htrans : ∀ a b c : Option NodeId × Option NodeId, (compare a b).isLE = true →
        (compare b c).isLE = true → (compare a c).isLE = true :=
      fun a b c => Std.TransOrd.isLE_trans
    have hsorted : (endsOf states).Pairwise fun a b => (compare a b).isLE = true := by
      refine List.pairwise_mergeSort htrans (fun a b => ?_) _
      rw [Bool.or_eq_true, or_iff_not_imp_left]
      exact fun h => Ordering.isLE_of_eq_lt (Std.OrientedCmp.lt_of_not_isLE h)
    refine List.Perm.eq_of_pairwise (fun a b _ _ hab hba => ?_) hascending hsorted hperm
    exact Std.LawfulEqCmp.eq_of_compare (Std.OrientedCmp.isLE_antisymm hab hba)
  have hentries : partitions.toList =
      partitions.toList.map fun entry => (entry.1, candidates states entry.1) := by
    refine (List.map_id' _).symm.trans (List.map_congr_left fun entry hentry => ?_)
    have hget := lookup_of_mem hentry
    rw [hlookup] at hget
    split at hget
    · exact Prod.ext rfl (Option.some.inj hget).symm
    · cases hget
  rw [hentries, ← hkeys, ← ExtTreeMap.map_fst_toList_eq_keys, List.map_map]
  rfl

theorem foldlM_extend (selector : PathSelector) (states : List (PathState V)) :
    ∀ (keys : List (Option NodeId × Option NodeId)) (output : List (PathState V)),
    (keys.map fun ends => (ends, candidates states ends)).foldlM (fun output entry => do
        let paths ← sortPaths entry.2
        pure (output ++ extendOutput selector paths)) output =
      .ok (output ++ keys.flatMap fun ends =>
        selector.take ((candidates states ends).mergeSort pathsOrdered))
  | [], output => by
    rw [List.flatMap_nil, List.append_nil]
    rfl
  | ends :: keys, output => by
    have hstable := mergeSort_stable pathsOrdered_trans pathsOrdered_total (candidates states ends)
    have ih := foldlM_extend selector states keys
      (output ++ selector.take ((candidates states ends).mergeSort pathsOrdered))
    rw [List.map_cons, List.foldlM_cons]
    rw [sortPaths_eq, ok_bind, extendOutput_eq selector (ordered_lengths hstable), pure_bind, ih,
      List.flatMap_cons, List.append_assoc]

/-- **The selection is the one that matching a path pattern makes.** -/
theorem applySelector_eq (selector : PathSelector) :
    applySelector states selector = .ok (Path.applySelector states selector) := by
  rw [applySelector, Path.applySelector]
  split
  · rfl
  · dsimp only
    rw [partitions_eq]
    exact foldlM_extend selector states (endsOf states) []

/-! ## 8. What each selector keeps -/

/-- No candidate is shorter. -/
def Shortest (candidates : List (PathState V)) (path : PathState V) : Prop :=
  ∀ other ∈ candidates, path.relationships.length ≤ other.relationships.length

instance (candidates : List (PathState V)) : DecidablePred (Shortest candidates) :=
  fun path => inferInstanceAs (Decidable (∀ other ∈ candidates,
    path.relationships.length ≤ other.relationships.length))

/-- What a selector has to keep of the candidates between two nodes. -/
def Kept (selector : PathSelector) (candidates kept : List (PathState V)) : Prop :=
  match selector.kind with
  | .all => kept = candidates
  | .any => kept.length = min selector.count candidates.length
  | .anyShortest => kept.length = min 1 candidates.length ∧ ∀ path ∈ kept, Shortest candidates path
  | .allShortest => kept.Perm (candidates.filter (Shortest candidates ·))
  | .shortestPaths => kept.length = min selector.count candidates.length ∧
      ∃ dropped, (kept ++ dropped).Perm candidates ∧ ∀ path ∈ kept, Shortest dropped path
  | .shortestGroups => kept.Perm (candidates.filter fun path =>
      shorterLengths candidates path.relationships.length < selector.count)

theorem lengthsOf_perm {l paths : List (PathState V)} (h : paths.Perm l) :
    lengthsOf paths = lengthsOf l :=
  List.toFinset_eq_of_perm _ _ (h.map _)

theorem takeWhile_length {n : Nat} : ∀ {paths : List (PathState V)},
    (∀ p ∈ paths, n ≤ p.relationships.length) →
    (paths.Pairwise fun p q => p.relationships.length ≤ q.relationships.length) →
    paths.takeWhile (·.relationships.length = n) = paths.filter (·.relationships.length = n)
  | [], _, _ => rfl
  | path :: paths, hmin, hsorted => by
    obtain ⟨hpath, hsorted⟩ := List.pairwise_cons.mp hsorted
    rw [List.takeWhile_cons, List.filter_cons]
    split
    · rw [takeWhile_length (fun p hp => hmin p (.tail _ hp)) hsorted]
    · next hlonger =>
      refine (List.filter_eq_nil_iff.mpr fun p hp => ?_).symm
      have hfirst := hmin path (.head _)
      have hp := hpath p hp
      rw [decide_eq_true_iff] at hlonger ⊢
      omega

/-- **What a selector takes of the sorted candidates is what it has to keep.** -/
theorem kept_take {selector : PathSelector} (hkind : selector.kind ≠ .all)
    {l paths : List (PathState V)} (h : StableSort pathsOrdered l paths) :
    Kept selector l (selector.take paths) := by
  have hsorted := ordered_lengths h
  have hlength := h.perm.length_eq
  have hsplit : ∀ n, ∀ path ∈ paths.take n, ∀ other ∈ paths.drop n,
      path.relationships.length ≤ other.relationships.length := by
    intro n
    rw [← List.take_append_drop n paths] at hsorted
    exact (List.pairwise_append.mp hsorted).2.2
  unfold Kept PathSelector.take
  cases hcase : selector.kind with
  | all => exact absurd hcase hkind
  | any => exact List.length_take.trans (congrArg (min _) hlength)
  | anyShortest =>
    refine ⟨List.length_take.trans (congrArg (min _) hlength), fun path hpath other hother => ?_⟩
    have hother := h.perm.mem_iff.mpr hother
    rw [← List.take_append_drop 1 paths] at hother
    obtain hother | hother := List.mem_append.mp hother
    · cases paths with
      | nil => cases hpath
      | cons first paths =>
        rw [List.take_one, List.head?_cons, Option.toList_some, List.mem_singleton] at hpath hother
        rw [hpath, hother]
    · exact hsplit 1 path hpath other hother
  | shortestPaths =>
    refine ⟨List.length_take.trans (congrArg (min _) hlength), paths.drop selector.count, ?_,
      hsplit selector.count⟩
    rw [List.take_append_drop]
    exact h.perm
  | allShortest =>
    refine List.Perm.trans ?_ (h.perm.filter _)
    cases paths with
    | nil => exact List.Perm.refl _
    | cons first paths =>
      have hfirst := (List.pairwise_cons.mp hsorted).1
      have hmin : ∀ p ∈ first :: paths, first.relationships.length ≤ p.relationships.length := by
        intro p hp
        obtain rfl | hp := List.mem_cons.mp hp
        · exact Nat.le_refl _
        · exact hfirst p hp
      dsimp only
      rw [takeWhile_length hmin hsorted]
      refine List.Perm.of_eq (List.filter_congr fun p hp => ?_)
      rw [decide_eq_decide]
      constructor
      · intro heq other hother
        exact heq ▸ hmin other (h.perm.mem_iff.mpr hother)
      · intro hshortest
        exact Nat.le_antisymm (hshortest first (h.perm.mem_iff.mp (.head _))) (hmin p hp)
  | shortestGroups =>
    rw [shortestGroups_eq selector.count hsorted]
    unfold shorterLengths
    rw [lengthsOf_perm h.perm]
    exact h.perm.filter _

theorem take_sublist (selector : PathSelector) (paths : List (PathState V)) :
    (selector.take paths).Sublist paths := by
  unfold PathSelector.take
  cases selector.kind with
  | all => exact List.Sublist.refl _
  | any | shortestPaths | anyShortest => exact List.take_sublist _ _
  | allShortest =>
    cases paths with
    | nil => exact List.Sublist.refl _
    | cons path paths => exact List.takeWhile_sublist _
  | shortestGroups => exact List.filter_sublist

theorem filter_flatMap {K A : Type} [DecidableEq K] {part : K → List A} {key : A → K}
    (hpart : ∀ k, ∀ a ∈ part k, key a = k) (k : K) : ∀ {keys : List K}, keys.Nodup →
    (keys.flatMap part).filter (fun a => key a = k) = if k ∈ keys then part k else []
  | [], _ => rfl
  | first :: keys, hnodup => by
    obtain ⟨hfirst, hnodup⟩ := List.nodup_cons.mp hnodup
    have ih := filter_flatMap hpart k hnodup
    rw [List.flatMap_cons, List.filter_append, ih]
    by_cases hk : k = first
    · subst hk
      have hall : (part k).filter (fun a => key a = k) = part k :=
        List.filter_eq_self.mpr fun a ha => decide_eq_true (hpart k a ha)
      rw [hall, if_neg hfirst, if_pos List.mem_cons_self, List.append_nil]
    · have hnone : (part first).filter (fun a => key a = k) = [] :=
        List.filter_eq_nil_iff.mpr fun a ha h =>
          hk ((of_decide_eq_true h).symm.trans (hpart first a ha))
      rw [hnone, List.nil_append]
      simp only [List.mem_cons, hk, false_or]

theorem candidates_applySelector {selector : PathSelector} (hkind : selector.kind ≠ .all)
    (states : List (PathState V)) (ends : Option NodeId × Option NodeId) :
    candidates (Path.applySelector states selector) ends =
      selector.take ((candidates states ends).mergeSort pathsOrdered) := by
  have hpart : ∀ key, ∀ path ∈ selector.take ((candidates states key).mergeSort pathsOrdered),
      path.ends = key := by
    intro key path hpath
    have hmem := List.mem_mergeSort.mp ((take_sublist _ _).subset hpath)
    exact of_decide_eq_true (List.mem_filter.mp hmem).2
  rw [Path.applySelector, if_neg hkind]
  refine (filter_flatMap hpart ends (nodup_endsOf states)).trans ?_
  split
  · rfl
  · next hnone =>
    rw [mem_endsOf] at hnone
    have hempty : candidates states ends = [] :=
      List.filter_eq_nil_iff.mpr fun p hp h =>
        hnone (of_decide_eq_true h ▸ List.mem_map_of_mem hp)
    have hsub := take_sublist selector ((candidates states ends).mergeSort pathsOrdered)
    rw [hempty, List.mergeSort_nil] at hsub ⊢
    exact (List.sublist_nil.mp hsub).symm

/-- **What each selector keeps between two nodes, and the sort behind it.** -/
theorem selector_keeps (states : List (PathState V)) (selector : PathSelector) :
    (∃ output, applySelector states selector = .ok output ∧
      ∀ ends, (candidates output ends).Subperm (candidates states ends) ∧
        Kept selector (candidates states ends) (candidates output ends)) ∧
    ∀ paths : List (PathState V), ∃ sorted, sortPaths paths = .ok sorted ∧
      StableSort pathsOrdered paths sorted := by
  refine ⟨⟨_, applySelector_eq states selector, fun ends => ?_⟩, sortPaths_stable⟩
  by_cases hkind : selector.kind = .all
  · rw [Path.applySelector, if_pos hkind]
    refine ⟨List.Subperm.refl _, ?_⟩
    unfold Kept
    rw [hkind]
  · have hstable := mergeSort_stable pathsOrdered_trans pathsOrdered_total (candidates states ends)
    rw [candidates_applySelector hkind]
    exact ⟨(take_sublist _ _).subperm.trans hstable.perm.subperm, kept_take hkind hstable⟩

end Lithograph.Query.Path.Selector
