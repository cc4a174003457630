/-
  File:      Lithograph/Version/MergeBases.lean
  Subject:   The best common ancestors of two commits (`query/version/merge/topology.rs`,
             `storage/version/history.rs`).

  The ancestors of both commits are collected with sorted sets, and a common ancestor is dropped
  where it is a parent of another one. The recursive query of the storage does the same with rows.

  * **`bestCommonAncestors_best`**: both give the common ancestors above which there is no other.
-/
import Mathlib.Data.List.Dedup
import Lithograph.Library.SetWalk
import Lithograph.Version.LogTraversal

namespace Lithograph.Version

open Std Library Storage

/-! ## 1. The graph walk -/

abbrev CommitSet := ExtTreeSet HashId

def parents (commits : Commits) (commit : HashId) : StorageResult (List HashId) :=
  (loadCommit commits commit).map CommitRecord.parents

/-- `ancestors`. One pass for each commit is enough. -/
def ancestors (commits : Commits) (start : HashId) : StorageResult (Option CommitSet) :=
  collect (parents commits) (commits.size + 1) ∅ ((∅ : CommitSet).insert start)

/-- `is_ancestor` of the walk. -/
def Walk.isAncestor (commits : Commits) (ancestor descendant : HashId) :
    StorageResult (Option Bool) :=
  if ancestor = descendant then .ok (some true)
  else do
    let visited ← ancestors commits descendant
    pure (visited.map fun visited => visited.contains ancestor)

/-- `left.intersection(right)`, in the order of the set. -/
def intersection (left right : CommitSet) : List HashId :=
  left.toList.filter fun commit => right.contains commit

/-- A parent of a common ancestor, where it is a common ancestor itself. -/
def dominateOne (left right dominated : CommitSet) (parent : HashId) : CommitSet :=
  if left.contains parent && right.contains parent then dominated.insert parent else dominated

/-- The loop of `dominated_ancestors` over one common ancestor. -/
def dominate (commits : Commits) (left right dominated : CommitSet) (child : HashId) :
    StorageResult CommitSet := do
  let parents ← parents commits child
  pure (parents.foldl (dominateOne left right) dominated)

def dominatedAncestors (commits : Commits) (left right : CommitSet) : StorageResult CommitSet :=
  (intersection left right).foldlM (dominate commits left right) ∅

def collectBestBases (left right dominated : CommitSet) : List HashId :=
  (intersection left right).filter fun commit => !dominated.contains commit

def bestCommonAncestors (commits : Commits) (left right : HashId) :
    StorageResult (Option (List HashId)) := do
  match ← ancestors commits left, ← ancestors commits right with
  | some left, some right => do
    let dominated ← dominatedAncestors commits left right
    pure (some (collectBestBases left right dominated))
  | _, _ => pure none

/-! ## 2. The recursive query -/

namespace History

/-- `is_ancestor` of the storage. -/
def isAncestor (commits : Commits) (ancestor descendant : HashId) : StorageResult (Option Bool) :=
  if ancestor = descendant then .ok (some true)
  else do
    let reachable ← reachableCommits commits [descendant]
    pure (reachable.map fun reachable => decide (ancestor ∈ reachable))

/-- `common(id)`: `INTERSECT` leaves each row once. -/
def common (commits : Commits) (left right : HashId) : List HashId :=
  ((reachableIds commits left).filter fun id => id ∈ reachableIds commits right).dedup

/-- The `EXISTS` of the query: a row of a common ancestor names the candidate as a parent. -/
def hasCommonChild (commits : Commits) (common : List HashId) (candidate : HashId) : Bool :=
  commits.toList.any fun (child : HashId × CommitRecord) =>
    child.1 ∈ common ∧ (child.2.parent1 = some candidate ∨ child.2.parent2 = some candidate)

/-- `best_common_ancestors` of the storage. -/
def bestCommonAncestors (commits : Commits) (left right : HashId) : List HashId :=
  ((common commits left right).filter fun candidate =>
    !hasCommonChild commits (common commits left right) candidate).mergeSort
      fun a b => (compare a b).isLE

end History

/-! ## 3. What a commit graph is -/

/-- Every parent is a commit of the table, and no commit is its own ancestor. -/
structure Acyclic (commits : Commits) : Prop where
  stored : ∀ child parent, Child commits child parent → Stored commits parent
  acyclic : ∀ commit, ¬ Relation.TransGen (Child commits) commit commit

/-- A common ancestor of two commits. -/
def Common (commits : Commits) (left right commit : HashId) : Prop :=
  InHistory commits left commit ∧ InHistory commits right commit

/-- A common ancestor that is not a proper ancestor of another one. -/
def Best (commits : Commits) (left right commit : HashId) : Prop :=
  Common commits left right commit ∧
    ∀ other, Common commits left right other → other ≠ commit → ¬ InHistory commits other commit

variable {child parent : HashId}

section Graph

variable {commits : Commits} {left right : HashId} {commit : HashId}

theorem parents_of_row {row : CommitRecord} (h : commits[commit]? = some row) :
    parents commits commit = .ok row.parents := by
  unfold parents loadCommit
  rw [h]
  rfl

theorem follows_parents : Follows (parents commits) child parent ↔ Child commits child parent := by
  constructor
  · intro h
    obtain ⟨next, hnext, hmem⟩ := h
    unfold parents loadCommit at hnext
    cases hrow : commits[child]? with
    | none =>
      rw [hrow] at hnext
      cases hnext
    | some row =>
      rw [hrow] at hnext
      cases hnext
      exact ⟨row, hrow, hmem⟩
  · intro h
    obtain ⟨row, hrow, hmem⟩ := h
    exact ⟨row.parents, parents_of_row hrow, hmem⟩

/-- **The walk ends with what can be reached through parents.** -/
theorem ancestors_ok (h : Acyclic commits) {start : HashId} (hstart : Stored commits start) :
    ∃ visited, ancestors commits start = .ok (some visited) ∧
      ∀ commit, commit ∈ visited ↔ InHistory commits start commit := by
  have hP : ∀ commit, Stored commits commit → commit ∈ commits.keys ∧
      ∃ next, parents commits commit = .ok next ∧ ∀ parent ∈ next, Stored commits parent := by
    intro commit hcommit
    obtain ⟨row, hrow⟩ := hcommit
    refine ⟨?_, row.parents, parents_of_row hrow, fun parent hparent => ?_⟩
    · rw [ExtTreeMap.mem_keys]
      exact ExtTreeMap.mem_iff_isSome_getElem?.mpr (Option.isSome_of_eq_some hrow)
    · exact h.stored commit parent ⟨row, hrow, hparent⟩
  have hfrontier : ∀ commit ∈ (∅ : CommitSet).insert start,
      Stored commits commit ∧ commit ∉ (∅ : CommitSet) := by
    intro commit hcommit
    rcases mem_insert_iff.mp hcommit with heq | hmem
    · exact ⟨heq ▸ hstart, ExtTreeSet.not_mem_empty⟩
    · exact absurd hmem ExtTreeSet.not_mem_empty
  have hfuel : commits.keys.countP (fun commit => !(∅ : CommitSet).contains commit) <
      commits.size + 1 := by
    rw [← ExtTreeMap.length_keys]
    exact Nat.lt_succ_of_le List.countP_le_length
  obtain ⟨visited, hvisited⟩ := collect_total hP hfrontier hfuel
  refine ⟨visited, hvisited, fun commit => ?_⟩
  rw [mem_collect_iff hvisited]
  have hstep : Follows (parents commits) = Child commits := by
    funext a b
    exact propext follows_parents
  rw [hstep]
  rfl

theorem InHistory.stored (h : Acyclic commits) {start commit : HashId}
    (hstart : Stored commits start) (hpath : InHistory commits start commit) :
    Stored commits commit := by
  cases hpath with
  | refl => exact hstart
  | tail _ hchild => exact h.stored _ _ hchild

/-- **A parent of a common ancestor is what lies properly above one.** -/
theorem dominated_iff (h : Acyclic commits) (left right commit : HashId) :
    (∃ child, Common commits left right child ∧ Child commits child commit) ↔
      ∃ other, Common commits left right other ∧ other ≠ commit ∧ InHistory commits other commit := by
  constructor
  · intro hexists
    obtain ⟨child, hcommon, hchild⟩ := hexists
    refine ⟨child, hcommon, fun heq => ?_, .single hchild⟩
    exact h.acyclic commit (.single (heq ▸ hchild))
  · intro hexists
    obtain ⟨other, hcommon, hne, hpath⟩ := hexists
    rcases Relation.ReflTransGen.cases_tail hpath with heq | ⟨child, hbefore, hchild⟩
    · exact absurd heq.symm hne
    · exact ⟨child, ⟨hcommon.1.trans hbefore, hcommon.2.trans hbefore⟩, hchild⟩

theorem mem_intersection {l r : CommitSet} :
    commit ∈ intersection l r ↔ commit ∈ l ∧ commit ∈ r := by
  unfold intersection
  rw [List.mem_filter, ExtTreeSet.mem_toList, ExtTreeSet.contains_iff_mem]

theorem mem_dominate {l r : CommitSet} : ∀ {next : List HashId}
    {dominated : CommitSet}, commit ∈ next.foldl (dominateOne l r) dominated ↔
      commit ∈ dominated ∨ commit ∈ next ∧ commit ∈ l ∧ commit ∈ r
  | [], dominated => by simp
  | parent :: next, dominated => by
    rw [List.foldl_cons, mem_dominate, List.mem_cons]
    unfold dominateOne
    split
    next hcommon =>
      grind
    next hcommon =>
      grind

theorem dominate_fold {l r : CommitSet} : ∀ {children : List HashId} (dominated : CommitSet),
    (∀ child ∈ children, Stored commits child) →
      ∃ result, children.foldlM (dominate commits l r) dominated = .ok result ∧
        ∀ commit, commit ∈ result ↔ commit ∈ dominated ∨
          (∃ child ∈ children, Child commits child commit) ∧ commit ∈ l ∧ commit ∈ r
  | [], dominated, _ => by
    refine ⟨dominated, rfl, fun commit => ?_⟩
    simp
  | child :: children, dominated, h => by
    obtain ⟨row, hrow⟩ := h child (.head _)
    obtain ⟨result, hresult, hmem⟩ := dominate_fold (l := l) (r := r)
      (row.parents.foldl (dominateOne l r) dominated)
      fun other hother => h other (.tail _ hother)
    refine ⟨result, ?_, fun commit => ?_⟩
    · rw [List.foldlM_cons]
      unfold dominate
      rw [parents_of_row hrow, ok_bind]
      exact hresult
    · have hchild : Child commits child commit ↔ commit ∈ row.parents := by
        constructor
        · intro hexists
          obtain ⟨row', hrow', hparent⟩ := hexists
          rw [hrow] at hrow'
          cases hrow'
          exact hparent
        · exact fun hparent => ⟨row, hrow, hparent⟩
      rw [hmem commit, mem_dominate, List.exists_mem_cons_iff, hchild]
      grind

end Graph

/-! ## 4. The two answers -/

section Answers

variable {commits : Commits} {left right : HashId}

/-- **The walk gives the best common ancestors.** -/
theorem walk_best (h : Acyclic commits) (hleft : Stored commits left)
    (hright : Stored commits right) : ∃ bases,
      bestCommonAncestors commits left right = .ok (some bases) ∧
      bases.Pairwise (fun a b => compare a b = .lt) ∧
      ∀ commit, commit ∈ bases ↔ Best commits left right commit := by
  obtain ⟨l, hl, hmeml⟩ := ancestors_ok h hleft
  obtain ⟨r, hr, hmemr⟩ := ancestors_ok h hright
  have hcommon : ∀ commit, commit ∈ intersection l r ↔ Common commits left right commit := by
    intro commit
    rw [mem_intersection, hmeml, hmemr]
    rfl
  have hrows : ∀ child ∈ intersection l r, Stored commits child := fun child hchild =>
    InHistory.stored h hleft ((hcommon child).mp hchild).1
  obtain ⟨dominated, hdominated, hmemd⟩ := dominate_fold (l := l) (r := r) ∅ hrows
  refine ⟨collectBestBases l r dominated, ?_, ?_, fun commit => ?_⟩
  · unfold bestCommonAncestors dominatedAncestors
    rw [hl, hr, ok_bind, ok_bind]
    simp only
    rw [hdominated]
    rfl
  · exact (ExtTreeSet.ordered_toList.filter _).filter _
  · unfold collectBestBases
    rw [List.mem_filter, hcommon, Bool.not_eq_true', ← Bool.not_eq_true,
      ExtTreeSet.contains_iff_mem, hmemd]
    unfold Best
    refine and_congr_right fun hmem => ?_
    have hfirst : commit ∈ l ∧ commit ∈ r := mem_intersection.mp ((hcommon commit).mpr hmem)
    have hchild := dominated_iff h left right commit
    simp only [ExtTreeSet.not_mem_empty, false_or, hfirst, and_true, hcommon, hchild, not_exists,
      not_and]

theorem hasCommonChild_iff {common : List HashId} {candidate : HashId} :
    History.hasCommonChild commits common candidate = true ↔
      ∃ child ∈ common, Child commits child candidate := by
  unfold History.hasCommonChild
  rw [List.any_eq_true]
  constructor
  · intro hexists
    obtain ⟨child, hrow, htest⟩ := hexists
    rw [decide_eq_true_eq] at htest
    exact ⟨child.1, htest.1, child.2, lookup_of_mem hrow, mem_parents.mpr htest.2⟩
  · intro hexists
    obtain ⟨child, hcommon, row, hrow, hparent⟩ := hexists
    refine ⟨(child, row), mem_of_lookup hrow, ?_⟩
    rw [decide_eq_true_eq]
    exact ⟨hcommon, mem_parents.mp hparent⟩

/-- **So does the query.** -/
theorem query_best (h : Acyclic commits) (left right : HashId) :
    (History.bestCommonAncestors commits left right).Pairwise (fun a b => compare a b = .lt) ∧
      ∀ commit, commit ∈ History.bestCommonAncestors commits left right ↔
        Best commits left right commit := by
  have hcommon : ∀ commit, commit ∈ History.common commits left right ↔
      Common commits left right commit := by
    intro commit
    unfold History.common
    rw [List.mem_dedup, List.mem_filter, decide_eq_true_eq, mem_reachableIds, mem_reachableIds]
    rfl
  constructor
  · have hnodup : (History.bestCommonAncestors commits left right).Nodup := by
      unfold History.bestCommonAncestors
      rw [(List.mergeSort_perm _ _).nodup_iff]
      exact (List.nodup_dedup _).filter _
    have hsorted : (History.bestCommonAncestors commits left right).Pairwise
        (fun a b => (compare a b).isLE) := by
      unfold History.bestCommonAncestors
      refine List.pairwise_mergeSort (fun a b c hab hbc => ?_) (fun a b => ?_) _
      · exact TransOrd.isLE_trans hab hbc
      · rw [OrientedOrd.eq_swap (a := b) (b := a)]
        cases compare a b <;> rfl
    refine (hsorted.and hnodup).imp fun {a b} hboth => ?_
    cases hcmp : compare a b with
    | lt => rfl
    | eq => exact absurd (LawfulEqOrd.eq_of_compare hcmp) hboth.2
    | gt =>
      rw [hcmp] at hboth
      cases hboth.1
  · intro commit
    unfold History.bestCommonAncestors
    rw [List.mem_mergeSort, List.mem_filter, hcommon, Bool.not_eq_true', ← Bool.not_eq_true,
      hasCommonChild_iff]
    unfold Best
    have hchild := dominated_iff h left right commit
    simp only [hcommon, hchild, not_exists, not_and]

theorem ascending_eq {l r : List HashId} (hl : l.Pairwise (fun a b => compare a b = .lt))
    (hr : r.Pairwise (fun a b => compare a b = .lt)) (h : ∀ commit, commit ∈ l ↔ commit ∈ r) :
    l = r := by
  have hne {l : List HashId} (hl : l.Pairwise (fun a b => compare a b = .lt)) : l.Nodup := by
    refine hl.imp fun {a b} hlt heq => ?_
    rw [heq, ReflOrd.compare_self] at hlt
    cases hlt
  have hperm : l.Perm r := (List.perm_ext_iff_of_nodup (hne hl) (hne hr)).mpr h
  refine hperm.eq_of_pairwise (fun a b _ _ hab hba => ?_) hl hr
  rw [OrientedOrd.eq_swap, hab] at hba
  cases hba

theorem Walk.isAncestor_answers (h : Acyclic commits) (ancestor : HashId) {descendant : HashId}
    (hstored : Stored commits descendant) : ∃ answer,
      Walk.isAncestor commits ancestor descendant = .ok (some answer) ∧
      (answer = true ↔ InHistory commits descendant ancestor) := by
  unfold Walk.isAncestor
  split
  next heq => exact ⟨true, rfl, ⟨fun _ => heq ▸ .refl, fun _ => rfl⟩⟩
  · obtain ⟨visited, hvisited, hmem⟩ := ancestors_ok h hstored
    refine ⟨visited.contains ancestor, ?_, ?_⟩
    · rw [hvisited]
      rfl
    · rw [ExtTreeSet.contains_iff_mem, hmem]

theorem follows_nextCommits :
    Follows (nextCommits commits) child parent ↔ Child commits child parent := by
  constructor
  · intro h
    obtain ⟨next, hnext, hmem⟩ := h
    obtain ⟨row, hrow, hreverse⟩ := nextCommits_ok hnext
    exact ⟨row, hrow, List.mem_reverse.mp (hreverse ▸ hmem)⟩
  · intro h
    obtain ⟨row, hrow, hmem⟩ := h
    refine ⟨row.parents.reverse, ?_, List.mem_reverse.mpr hmem⟩
    unfold nextCommits loadCommit
    rw [hrow]
    rfl

theorem History.isAncestor_answers (h : Acyclic commits) (ancestor : HashId) {descendant : HashId}
    (hstored : Stored commits descendant) : ∃ answer,
      History.isAncestor commits ancestor descendant = .ok (some answer) ∧
      (answer = true ↔ InHistory commits descendant ancestor) := by
  unfold History.isAncestor
  split
  next heq => exact ⟨true, rfl, ⟨fun _ => heq ▸ .refl, fun _ => rfl⟩⟩
  · have hP : ∀ commit, Stored commits commit →
        ∃ next, nextCommits commits commit = .ok next ∧ ∀ parent ∈ next, Stored commits parent := by
      intro commit hcommit
      obtain ⟨row, hrow⟩ := hcommit
      refine ⟨row.parents.reverse, ?_, fun parent hparent => ?_⟩
      · unfold nextCommits loadCommit
        rw [hrow]
        rfl
      · exact h.stored commit parent ⟨row, hrow, List.mem_reverse.mp hparent⟩
    have hend := reachableCommits_total commits [descendant]
    unfold reachableCommits at hend ⊢
    have hstart : ∀ commit ∈ [descendant].reverse, Stored commits commit := by
      intro commit hcommit
      rw [List.mem_singleton.mp hcommit]
      exact hstored
    have hdefined : ∃ result, closure (nextCommits commits) (walkFuel commits [descendant]) []
        [descendant].reverse = .ok result := closure_defined hP hstart
    obtain ⟨result, hresult⟩ := hdefined
    rw [hresult] at hend ⊢
    cases result with
    | none => exact absurd rfl hend
    | some reachable =>
      refine ⟨decide (ancestor ∈ reachable), rfl, ?_⟩
      rw [decide_eq_true_eq, mem_closure_iff hresult]
      have hstep : Follows (nextCommits commits) = Child commits := by
        funext a b
        exact propext follows_nextCommits
      rw [hstep]
      unfold InHistory
      simp

/-- **The best common ancestors of two commits**: walk and query end with the same list, the
    common ancestors that are no proper ancestor of another one, each once, in the order of their
    ids; and `is_ancestor` holds exactly where one commit can be reached from the other. -/
theorem bestCommonAncestors_best (h : Acyclic commits) (hleft : Stored commits left)
    (hright : Stored commits right) : ∃ bases,
      bestCommonAncestors commits left right = .ok (some bases) ∧
      History.bestCommonAncestors commits left right = bases ∧
      bases.Pairwise (fun a b => compare a b = .lt) ∧
      (∀ commit, commit ∈ bases ↔ Best commits left right commit) ∧
      ∀ ancestor, ∃ answer, Walk.isAncestor commits ancestor left = .ok (some answer) ∧
        History.isAncestor commits ancestor left = .ok (some answer) ∧
        (answer = true ↔ InHistory commits left ancestor) := by
  obtain ⟨bases, hbases, hascending, hmem⟩ := walk_best h hleft hright
  obtain ⟨hascending', hmem'⟩ := query_best h left right
  refine ⟨bases, hbases, ?_, hascending, hmem, fun ancestor => ?_⟩
  · exact ascending_eq hascending' hascending fun commit => (hmem' commit).trans (hmem commit).symm
  · obtain ⟨answer, hanswer, hiff⟩ := Walk.isAncestor_answers h ancestor hleft
    obtain ⟨answer', hanswer', hiff'⟩ := History.isAncestor_answers h ancestor hleft
    refine ⟨answer, hanswer, ?_, hiff⟩
    rw [hanswer', Bool.eq_iff_iff.mpr (hiff'.trans hiff.symm)]

end Answers

/-! ## 5. A fork -/

/-- A commit with some parents. -/
def plainCommit (parent1 parent2 : Option HashId) : CommitRecord :=
  ⟨parent1, parent2, [], [], ⟨none, none, 0⟩⟩

/-- One commit with two children. -/
def fork : Commits :=
  ((((∅ : Commits).insert [1] (plainCommit none none)).insert [2] (plainCommit (some [1]) none))).insert
    [3] (plainCommit (some [1]) none)

theorem fork_child (h : Child fork child parent) : (child = [2] ∨ child = [3]) ∧ parent = [1] := by
  obtain ⟨row, hrow, hparent⟩ := h
  unfold fork at hrow
  rw [lookup_insert, lookup_insert, lookup_insert] at hrow
  split at hrow
  next heq =>
    cases hrow
    exact ⟨Or.inr heq, List.mem_singleton.mp hparent⟩
  split at hrow
  next heq =>
    cases hrow
    exact ⟨Or.inl heq, List.mem_singleton.mp hparent⟩
  split at hrow
  · cases hrow
    cases hparent
  · cases hrow

theorem fork_acyclic : Acyclic fork := by
  refine ⟨fun child parent h => ?_, fun commit hpath => ?_⟩
  · rw [(fork_child h).2]
    exact ⟨plainCommit none none, rfl⟩
  · obtain ⟨_, hfirst, _⟩ := Relation.TransGen.head'_iff.mp hpath
    obtain ⟨_, _, hlast⟩ := Relation.TransGen.tail'_iff.mp hpath
    have hroot : commit = [1] := (fork_child hlast).2
    rcases (fork_child hfirst).1 with heq | heq
    · rw [hroot] at heq
      cases heq
    · rw [hroot] at heq
      cases heq

/-- The commit both sides started from. -/
theorem bestCommonAncestors_fork : ∃ bases, bestCommonAncestors fork [2] [3] = .ok (some bases) ∧
    History.bestCommonAncestors fork [2] [3] = bases ∧ [1] ∈ bases := by
  have hours : Stored fork [2] := ⟨_, rfl⟩
  have htheirs : Stored fork [3] := ⟨_, rfl⟩
  obtain ⟨bases, hwalk, hquery, _, hbest, _⟩ :=
    bestCommonAncestors_best fork_acyclic hours htheirs
  have hleft : Child fork [2] [1] := ⟨plainCommit (some [1]) none, rfl, List.mem_singleton.mpr rfl⟩
  have hright : Child fork [3] [1] := ⟨plainCommit (some [1]) none, rfl, List.mem_singleton.mpr rfl⟩
  refine ⟨bases, hwalk, hquery, (hbest [1]).mpr ⟨⟨.single hleft, .single hright⟩, ?_⟩⟩
  intro other hcommon hne hpath
  -- between a commit and its only ancestor there is none
  rcases Relation.ReflTransGen.cases_head hcommon.1 with heq | ⟨next, hstep, hrest⟩
  · rcases Relation.ReflTransGen.cases_head hcommon.2 with heq' | ⟨next, hstep, hrest⟩
    · rw [← heq] at heq'
      cases heq'
    · rw [← heq] at hrest
      rw [(fork_child hstep).2] at hrest
      rcases Relation.ReflTransGen.cases_head hrest with h | ⟨_, h, _⟩
      · cases h
      · rcases (fork_child h).1 with h | h <;> cases h
  · rw [(fork_child hstep).2] at hrest
    rcases Relation.ReflTransGen.cases_head hrest with h | ⟨_, h, _⟩
    · exact hne h.symm
    · rcases (fork_child h).1 with h | h <;> cases h

end Lithograph.Version
