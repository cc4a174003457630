/-
  File:      Lithograph/Version/LogPages.lean
  Subject:   The history listing read a page at a time.

  The invariant `Represents`: after some commits were listed, the open commits of the traversal are
  those all children of which were listed, and a commit waits with the number of its children that
  were not, from its first listed child to its last.
-/
import Lithograph.Library.Topological
import Lithograph.Version.LogTraversal

namespace Lithograph.Version

open Std Library Storage Query Cypher

/-! ## 1. A history as a graph -/

/-- A commit table without a cycle: `CHECK (length(id) = 32)`, parents are there, and `count(*)`
    fits its type. -/
structure CommitDag (commits : Commits) : Prop where
  width : ∀ (id : HashId) (row : CommitRecord), commits[id]? = some row → id.length = 32
  parents : ∀ child parent, Child commits child parent → Stored commits parent
  acyclic : ∀ id, ¬ Relation.TransGen (Child commits) id id
  size : commits.size < 2 ^ 63

/-- Where a commit stands among those that may come next: the latest first, then by identity. -/
def readyKey (commits : Commits) (id : HashId) : ReadyKey :=
  (⟨(commits[id]?.map fun row => row.metadata.committedAt).getD 0⟩, id)

/-- The history of a commit, children in front of their parents. -/
def history (commits : Commits) (start : HashId) : Library.Graph HashId ReadyKey where
  nodes := reachableIds commits start
  front := Child commits
  key := readyKey commits

variable {done : List HashId} {p c : HashId} {t : LogTraversal} {x : LogContext}

section

variable {commits : Commits} {start : HashId} {id : HashId}

theorem mem_nodes : id ∈ (history commits start).nodes ↔
    InHistory commits start id := mem_reachableIds

theorem nodes_down : ∀ a ∈ (history commits start).nodes, ∀ b, (history commits start).front a b →
    b ∈ (history commits start).nodes := by
  intro a ha b hab
  rw [mem_nodes] at ha ⊢
  exact ha.tail hab

theorem readyKey_of_row {row : CommitRecord} (h : commits[id]? = some row) :
    readyKey commits id = (⟨row.metadata.committedAt⟩, id) := by
  unfold readyKey
  rw [h]
  rfl

theorem CommitDag.stored (h : CommitDag commits) (hstart : Stored commits start)
    (hid : InHistory commits start id) : Stored commits id := by
  cases hid with
  | refl => exact hstart
  | tail _ hlast => exact h.parents _ _ hlast

/-! ## 2. What the traversal stands for -/

/-- The children of a commit that were not listed. -/
def remaining (commits : Commits) (start : HashId) (done : List HashId) (p : HashId) : Nat :=
  (reachableChildren commits start p).countP (· ∉ done)

/-- How a commit waits: from its first listed child to its last. -/
def waiting (commits : Commits) (start : HashId) (done : List HashId) (p : HashId) : Option Nat :=
  let left := remaining commits start done p
  if left = 0 ∨ left = reachableChildCount commits start p then none else some left

/-- What a traversal stands for after some commits were listed. -/
structure Represents (commits : Commits) (start : HashId) (done : List HashId)
    (t : LogTraversal) : Prop where
  pinned : t.start = start
  ready : ∀ key, key ∈ t.ready ↔
    key = readyKey commits key.2 ∧ (history commits start).Open done key.2
  pending : ∀ p : HashId, t.pendingChildren[p]? = waiting commits start done p
  closed : (history commits start).Closed done

theorem remaining_eq_zero : remaining commits start done p = 0 ↔
      ∀ c, InHistory commits start c → Child commits c p → c ∈ done := by
  unfold remaining
  rw [List.countP_eq_zero]
  constructor
  · intro h c hc hchild
    have := h c (mem_reachableChildren.mpr ⟨hc, hchild⟩)
    simpa using this
  · intro h c hc
    obtain ⟨hin, hchild⟩ := mem_reachableChildren.mp hc
    simpa using h c hin hchild

theorem open_iff : (history commits start).Open done p ↔
    InHistory commits start p ∧ p ∉ done ∧ remaining commits start done p = 0 := by
  rw [remaining_eq_zero]
  unfold Library.Graph.Open
  rw [mem_nodes]
  constructor
  · rintro ⟨hin, hleft, hall⟩
    exact ⟨hin, hleft, fun c hc => hall c (mem_nodes.mpr hc)⟩
  · rintro ⟨hin, hleft, hall⟩
    exact ⟨hin, hleft, fun c hc => hall c (mem_nodes.mp hc)⟩

theorem countP_cons_of_mem {l : List HashId} (hl : l.Nodup) (hc : c ∈ l) (hleft : c ∉ done) :
    l.countP (· ∉ done) = l.countP (· ∉ c :: done) + 1 := by
  induction l with
  | nil => cases hc
  | cons a l ih =>
    obtain ⟨ha, hl⟩ := List.nodup_cons.mp hl
    rw [List.countP_cons, List.countP_cons]
    by_cases hac : a = c
    · subst hac
      have hrest : l.countP (· ∉ a :: done) = l.countP (· ∉ done) := by
        refine List.countP_congr fun b hb => ?_
        have hba : b ≠ a := fun e => ha (e ▸ hb)
        simp [hba]
      rw [hrest]
      simp [hleft]
    · have hcl : c ∈ l := by
        rcases List.mem_cons.mp hc with rfl | hcl
        · exact absurd rfl hac
        · exact hcl
      rw [ih hl hcl]
      simp only [List.mem_cons, hac, false_or]
      omega

theorem remaining_of_child (hc : InHistory commits start c) (hchild : Child commits c p)
    (hleft : c ∉ done) :
    remaining commits start done p = remaining commits start (c :: done) p + 1 :=
  countP_cons_of_mem (nodup_reachableChildren commits start p)
    (mem_reachableChildren.mpr ⟨hc, hchild⟩) hleft

theorem remaining_of_not_child (hchild : ¬ Child commits c p) :
    remaining commits start (c :: done) p = remaining commits start done p := by
  unfold remaining
  refine List.countP_congr fun b hb => ?_
  have hbc : b ≠ c := fun e => hchild (e ▸ (mem_reachableChildren.mp hb).2)
  simp [hbc]

theorem remaining_le (done : List HashId) (p : HashId) :
    remaining commits start done p ≤ reachableChildCount commits start p :=
  List.countP_le_length

theorem waiting_some {n : Nat} :
    waiting commits start done p = some n ↔ n = remaining commits start done p ∧ n ≠ 0 ∧
      n ≠ reachableChildCount commits start p := by
  unfold waiting
  dsimp only
  split
  · rename_i h
    constructor
    · intro hn
      cases hn
    · rintro ⟨rfl, h0, h1⟩
      exact absurd h (not_or.mpr ⟨h0, h1⟩)
  · rename_i h
    rw [not_or] at h
    constructor
    · intro hn
      cases hn
      exact ⟨rfl, h⟩
    · rintro ⟨rfl, _⟩
      rfl

theorem known_eq (hleft : remaining commits start done p ≠ 0) :
    (waiting commits start done p).getD (reachableChildCount commits start p) =
      remaining commits start done p := by
  unfold waiting
  dsimp only
  split
  · rename_i h
    rcases h with h | h
    · exact absurd h hleft
    · exact h.symm
  · rfl

/-! ## 3. A step -/

theorem knownChildren_ok (hpinned : t.start = start)
    (hpending : t.pendingChildren[p]? = waiting commits start done p)
    (hleft : remaining commits start done p ≠ 0) :
    knownChildren commits t p = .ok (remaining commits start done p) := by
  have hknown := known_eq hleft
  unfold knownChildren
  rw [hpending, hpinned]
  cases hw : waiting commits start done p with
  | some n =>
    rw [hw] at hknown
    exact congrArg Except.ok hknown
  | none =>
    rw [hw] at hknown
    have hcount : reachableChildCount commits start p = remaining commits start done p := hknown
    dsimp only
    rw [hcount, (refuseWhen_ok (u := ())).mpr (decide_eq_false hleft), ok_bind]

/-- In the middle of a step: `c` is listed, and of its parents those in `passed` know it. -/
structure Advancing (commits : Commits) (start : HashId) (done : List HashId) (c : HashId)
    (passed : List HashId) (t : LogTraversal) : Prop where
  pinned : t.start = start
  ready : ∀ key, key ∈ t.ready ↔ key = readyKey commits key.2 ∧
    ((history commits start).Open done key.2 ∧ key.2 ≠ c ∨
      key.2 ∈ passed ∧ (history commits start).Open (c :: done) key.2)
  pending : ∀ p : HashId, t.pendingChildren[p]? =
    if p ∈ passed then waiting commits start (c :: done) p else waiting commits start done p

/-- **A parent learns of its listed child.** -/
theorem advanceLogParent_spec (hdag : CommitDag commits) {passed : List HashId}
    (h : Advancing commits start done c passed t) (hclosed : (history commits start).Closed done)
    (hc : (history commits start).Open done c) (hchild : Child commits c p) (hp : p ∉ passed) :
    ∃ t', advanceLogParent commits t p = .ok t' ∧
      Advancing commits start done c (passed ++ [p]) t' := by
  have hin : InHistory commits start c := mem_nodes.mp hc.1
  have hleft := remaining_of_child hin hchild hc.2.1
  have hnot : ¬ (history commits start).Open done p := fun ho =>
    hc.2.1 (ho.2.2 c hc.1 hchild)
  have hpleft : p ∉ c :: done := by
    rw [List.mem_cons]
    rintro (rfl | hdone)
    · exact hdag.acyclic p (Relation.TransGen.single hchild)
    · exact hc.2.1 (hclosed p hdone c hc.1 hchild)
  have hfree : (t.ready.toList.any fun key => key.2 = p) = false := by
    rw [List.any_eq_false]
    intro key hk
    have hready := (h.ready key).mp (ExtTreeSet.mem_toList.mp hk)
    simp only [decide_eq_true_eq]
    rintro rfl
    rcases hready.2 with ⟨ho, _⟩ | ⟨hmem, _⟩
    · exact hnot ho
    · exact hp hmem
  have hpending := h.pending p
  rw [if_neg hp] at hpending
  have hknown := knownChildren_ok h.pinned hpending (by omega)
  obtain ⟨row, hrow⟩ := hdag.parents c p hchild
  have hpositive : remaining commits start done p ≠ 0 := by omega
  have hless : remaining commits start done p - 1 = remaining commits start (c :: done) p := by
    omega
  have hpast : ∀ q : HashId, q ∈ passed ++ [p] ↔ q ∈ passed ∨ q = p := by simp
  unfold advanceLogParent
  rw [hfree, (refuseWhen_ok (u := ())).mpr rfl, ok_bind, hknown, ok_bind,
    (refuseWhen_ok (u := ())).mpr (decide_eq_false hpositive), ok_bind]
  rw [hless]
  by_cases hzero : remaining commits start (c :: done) p = 0
  · -- the last child was listed: the commit is open
    have hopen : (history commits start).Open (c :: done) p :=
      open_iff.mpr ⟨hin.tail hchild, hpleft, hzero⟩
    rw [if_pos hzero, loadVersion_ok.mpr hrow, ok_bind, ← readyKey_of_row hrow]
    refine ⟨_, rfl, h.pinned, fun key => ?_, fun q => ?_⟩
    · rw [ExtTreeSet.mem_insert, h.ready, Std.compare_eq_iff_eq, hpast]
      constructor
      · rintro (rfl | ⟨hkey, ho | ⟨hmem, ho⟩⟩)
        · exact ⟨rfl, Or.inr ⟨Or.inr rfl, hopen⟩⟩
        · exact ⟨hkey, Or.inl ho⟩
        · exact ⟨hkey, Or.inr ⟨Or.inl hmem, ho⟩⟩
      · rintro ⟨hkey, ho | ⟨hmem | heq, ho⟩⟩
        · exact Or.inr ⟨hkey, Or.inl ho⟩
        · exact Or.inr ⟨hkey, Or.inr ⟨hmem, ho⟩⟩
        · exact Or.inl (by rw [hkey, heq])
    · rw [lookup_erase, h.pending]
      simp only [hpast]
      by_cases hq : q = p
      · subst hq
        rw [if_pos rfl, if_pos (Or.inr rfl)]
        unfold waiting
        exact (if_pos (Or.inl hzero)).symm
      · simp only [hq, or_false, if_false]
  · have hclosedOpen : ¬ (history commits start).Open (c :: done) p := fun ho =>
      hzero (open_iff.mp ho).2.2
    have hwaits : waiting commits start (c :: done) p =
        some (remaining commits start (c :: done) p) := by
      have hle : remaining commits start done p ≤ reachableChildCount commits start p :=
        remaining_le done p
      exact waiting_some.mpr ⟨rfl, hzero, by omega⟩
    rw [if_neg hzero]
    refine ⟨_, rfl, h.pinned, fun key => ?_, fun q => ?_⟩
    · rw [h.ready, hpast]
      refine and_congr_right fun _ => or_congr_right ?_
      constructor
      · rintro ⟨hmem, ho⟩
        exact ⟨Or.inl hmem, ho⟩
      · rintro ⟨hmem | heq, ho⟩
        · exact ⟨hmem, ho⟩
        · exact absurd (heq ▸ ho) hclosedOpen
    · rw [lookup_insert, h.pending]
      simp only [hpast]
      by_cases hq : q = p
      · subst hq
        rw [if_pos rfl, if_pos (Or.inr rfl), hwaits]
      · simp only [hq, or_false, if_false]

theorem parentSet_spec (record : CommitRecord) :
    (parentSet record).Nodup ∧ ∀ p, p ∈ parentSet record ↔ p ∈ record.parents := by
  have hmem : ∀ (parents : List HashId) (set : ExtTreeSet HashId) (p : HashId),
      p ∈ parents.foldl (fun set parent => set.insert parent) set ↔ p ∈ set ∨ p ∈ parents := by
    intro parents
    induction parents with
    | nil => simp
    | cons a parents ih =>
      intro set p
      rw [List.foldl_cons, ih, ExtTreeSet.mem_insert, Std.compare_eq_iff_eq, List.mem_cons,
        eq_comm (a := a)]
      tauto
  unfold parentSet
  refine ⟨?_, fun p => ?_⟩
  · exact ExtTreeSet.distinct_toList.imp fun hne he => hne (by rw [he]; exact ReflCmp.compare_self)
  · rw [ExtTreeSet.mem_toList, hmem]
    simp

theorem advanceParents_spec (hdag : CommitDag commits) {done : List HashId} {c : HashId}
    (hclosed : (history commits start).Closed done)
    (hc : (history commits start).Open done c) :
    ∀ (parents passed : List HashId) {t : LogTraversal},
      Advancing commits start done c passed t → parents.Nodup →
      (∀ p ∈ parents, p ∉ passed ∧ Child commits c p) →
      ∃ t', parents.foldlM (advanceLogParent commits) t = .ok t' ∧
        Advancing commits start done c (passed ++ parents) t'
  | [], passed, t, h, _, _ => ⟨t, rfl, by rwa [List.append_nil]⟩
  | p :: parents, passed, t, h, hnodup, hall => by
    obtain ⟨hp, hrest⟩ := List.nodup_cons.mp hnodup
    obtain ⟨hfresh, hchild⟩ := hall p (.head _)
    obtain ⟨t₁, hstep, h₁⟩ := advanceLogParent_spec hdag h hclosed hc hchild hfresh
    have hall' : ∀ q ∈ parents, q ∉ passed ++ [p] ∧ Child commits c q := by
      intro q hq
      obtain ⟨hqf, hqc⟩ := hall q (.tail _ hq)
      refine ⟨fun hmem => ?_, hqc⟩
      rcases List.mem_append.mp hmem with hmem | hmem
      · exact hqf hmem
      · exact hp (List.mem_singleton.mp hmem ▸ hq)
    obtain ⟨t', hfold, h'⟩ := advanceParents_spec hdag hclosed hc parents (passed ++ [p]) h₁ hrest
      hall'
    refine ⟨t', ?_, ?_⟩
    · rw [List.foldlM_cons, hstep, ok_bind, hfold]
    · rwa [List.append_assoc, List.singleton_append] at h'

theorem Advancing.represents {passed : List HashId} (h : Advancing commits start done c passed t)
    (hclosed : (history commits start).Closed done) (hc : (history commits start).Open done c)
    (hall : ∀ p, p ∈ passed ↔ Child commits c p) : Represents commits start (c :: done) t := by
  refine ⟨h.pinned, fun key => ?_, fun p => ?_, hclosed.cons hc⟩
  · rw [h.ready]
    refine and_congr_right fun _ => ?_
    constructor
    · rintro (⟨ho, hne⟩ | ⟨_, ho⟩)
      · refine ⟨ho.1, ?_, fun b hb hfront => .tail _ (ho.2.2 b hb hfront)⟩
        rw [List.mem_cons]
        exact fun hmem => hmem.elim hne ho.2.1
      · exact ho
    · intro ho
      by_cases hchild : Child commits c key.2
      · exact Or.inr ⟨(hall _).mpr hchild, ho⟩
      · have hne : key.2 ≠ c := fun e => ho.2.1 (e ▸ (.head _))
        refine Or.inl ⟨⟨ho.1, fun hd => ho.2.1 (.tail _ hd), ?_⟩, hne⟩
        intro b hb hfront
        rcases List.mem_cons.mp (ho.2.2 b hb hfront) with rfl | hd
        · exact absurd hfront hchild
        · exact hd
  · rw [h.pending]
    split
    · rfl
    · rename_i hp
      have hsame : remaining commits start (c :: done) p = remaining commits start done p :=
        remaining_of_not_child fun hchild => hp ((hall p).mpr hchild)
      unfold waiting
      rw [hsame]

theorem Represents.finished (hdag : CommitDag commits) (h : Represents commits start done t)
    (hready : t.ready = ∅) :
    (∀ a ∈ (history commits start).nodes, a ∈ done) ∧ t.pendingChildren = ∅ := by
  have hall : ∀ a ∈ (history commits start).nodes, a ∈ done := by
    intro a ha
    by_contra hleft
    obtain ⟨b, hb⟩ := Library.Graph.exists_open hdag.acyclic ha hleft
    have hmem : readyKey commits b ∈ t.ready := (h.ready (readyKey commits b)).mpr ⟨rfl, hb⟩
    rw [hready] at hmem
    exact ExtTreeSet.not_mem_empty hmem
  refine ⟨hall, ExtTreeMap.ext_getElem? fun p => ?_⟩
  rw [h.pending, ExtTreeMap.getElem?_empty]
  unfold waiting
  exact if_pos (Or.inl (remaining_eq_zero.mpr fun c hc _ => hall c (mem_nodes.mpr hc)))

theorem Represents.ready_empty (h : Represents commits start done t)
    (hall : ∀ a ∈ (history commits start).nodes, a ∈ done) : t.ready = ∅ := by
  refine ExtTreeSet.ext_mem fun key => ?_
  rw [h.ready]
  constructor
  · rintro ⟨_, hopen⟩
    exact absurd (hall _ hopen.1) hopen.2.1
  · intro hmem
    exact absurd hmem ExtTreeSet.not_mem_empty

/-- **A step lists the open commit that comes next**, or ends where nothing is left. -/
theorem nextLogCommit_spec (hdag : CommitDag commits) (hstart : Stored commits start)
    (h : Represents commits start done t) :
    (nextLogCommit commits t = .ok none ∧ ∀ a ∈ (history commits start).nodes, a ∈ done) ∨
      ∃ (c : HashId) (record : CommitRecord) (t' : LogTraversal),
        nextLogCommit commits t = .ok (some ((c, record), t')) ∧ commits[c]? = some record ∧
        (history commits start).IsNext done c ∧ Represents commits start (c :: done) t' := by
  cases hmin : t.ready.min? with
  | none =>
    obtain ⟨hall, hpending⟩ := h.finished hdag (ExtTreeSet.min?_eq_none_iff.mp hmin)
    refine Or.inl ⟨?_, hall⟩
    unfold nextLogCommit
    rw [hmin, hpending]
    rfl
  | some key =>
    refine Or.inr ?_
    obtain ⟨hmem, hleast⟩ := ExtTreeSet.min?_eq_some_iff_mem_and_forall.mp hmin
    obtain ⟨hkey, hopen⟩ := (h.ready key).mp hmem
    obtain ⟨record, hrecord⟩ := hdag.stored hstart (mem_nodes.mp hopen.1)
    have hnext : (history commits start).IsNext done key.2 := by
      refine ⟨hopen, fun b hb hne => ?_⟩
      have hle := hleast _ ((h.ready (readyKey commits b)).mpr ⟨rfl, hb⟩)
      rw [hkey] at hle
      show compare (readyKey commits key.2) (readyKey commits b) = .lt
      cases hcompare : compare (readyKey commits key.2) (readyKey commits b) with
      | lt => rfl
      | eq =>
        have hsame := LawfulEqCmp.eq_of_compare hcompare
        exact absurd (congrArg Prod.snd hsame).symm hne
      | gt =>
        rw [hcompare] at hle
        cases hle
    have hbegin : Advancing commits start done key.2 [] { t with ready := t.ready.erase key } := by
      refine ⟨h.pinned, fun k => ?_, fun p => ?_⟩
      · rw [ExtTreeSet.mem_erase, h.ready, ne_eq, Std.compare_eq_iff_eq]
        constructor
        · rintro ⟨hne, hk, ho⟩
          refine ⟨hk, Or.inl ⟨ho, fun heq => hne ?_⟩⟩
          rw [hkey, hk, heq]
        · rintro ⟨hk, ⟨ho, hne⟩ | ⟨hmem, _⟩⟩
          · exact ⟨fun heq => hne (heq ▸ rfl), hk, ho⟩
          · cases hmem
      · exact h.pending p
    obtain ⟨hnodup, hparents⟩ := parentSet_spec record
    have hchild : ∀ p, p ∈ parentSet record ↔ Child commits key.2 p := by
      intro p
      rw [hparents]
      constructor
      · intro hp
        exact ⟨record, hrecord, hp⟩
      · rintro ⟨record', hrecord', hp⟩
        rw [hrecord] at hrecord'
        cases hrecord'
        exact hp
    obtain ⟨t', hfold, h'⟩ := advanceParents_spec hdag h.closed hopen (parentSet record) [] hbegin
      hnodup fun p hp => ⟨List.not_mem_nil, (hchild p).mp hp⟩
    refine ⟨key.2, record, t', ?_, hrecord, hnext, h'.represents h.closed hopen hchild⟩
    unfold nextLogCommit
    rw [hmin]
    dsimp only
    rw [loadVersion_ok.mpr hrecord, ok_bind, hfold]
    rfl

/-! ## 4. The rows -/

theorem Represents.sound (hdag : CommitDag commits) (hstart : Stored commits start)
    {done : List HashId} {t : LogTraversal} (h : Represents commits start done t) :
    t.Sound commits := by
  refine ⟨h.pinned ▸ hstart, fun key hk => ?_, fun p n hp => ?_, fun hready => ?_⟩
  · obtain ⟨hkey, hopen⟩ := (h.ready key).mp hk
    obtain ⟨row, hrow⟩ := hdag.stored hstart (mem_nodes.mp hopen.1)
    refine ⟨row, hrow, ?_⟩
    rw [hkey, readyKey_of_row hrow]
  · rw [h.pending] at hp
    obtain ⟨rfl, hpos, _⟩ := waiting_some.mp hp
    have hcount := reachableChildCount_le commits start p
    have hle : remaining commits start done p ≤ reachableChildCount commits start p :=
      remaining_le done p
    have hsize := hdag.size
    have hstored : Stored commits p := by
      by_contra hnone
      have hnil : remaining commits start done p = 0 :=
        remaining_eq_zero.mpr fun c _ hchild => absurd (hdag.parents c p hchild) hnone
      exact hpos hnil
    refine ⟨hstored, by omega, by omega, fun key hk heq => hpos ?_⟩
    exact (open_iff.mp (heq ▸ ((h.ready key).mp hk).2)).2.2
  · exact (h.finished hdag hready).2

/-- The row of a commit, less its cursor. -/
def RowOf (commits : Commits) (id : HashId) (row : LogRow) : Prop :=
  ∃ record, commits[id]? = some record ∧ row.toCommitRow = commitRecordRow id record

/-- The cursor of a row stands for the rows behind it; the last row has none. -/
def Resumes (blake3 : Bytes → Bytes) (commits : Commits) (row : LogRow) (rest : List LogRow) :
    Prop :=
  (row.cursor = none ∧ rest = []) ∨ ∃ (text : Text) (t : LogTraversal), row.cursor = some text ∧
    text ≠ [] ∧ rest ≠ [] ∧ decodeLogCursor blake3 commits text = .ok t ∧
    ∀ limit, collectLogRows blake3 commits limit t = .ok (rest.take limit)

theorem encodeLogCursor_ne_nil (blake3 : Bytes → Bytes) (t : LogTraversal) :
    encodeLogCursor blake3 t ≠ [] :=
  List.append_ne_nil_of_right_ne_nil _ (List.cons_ne_nil _ _)

theorem resumes_of_step (hdag : CommitDag commits) (hstart : Stored commits start)
    (blake3 : Bytes → Bytes) (h : Represents commits start done t) {ids : List HashId}
    {rows : List LogRow} (hlists : (history commits start).Lists done ids)
    (hrows : List.Forall₂ (RowOf commits) ids rows)
    (hcollect : ∀ limit, collectLogRows blake3 commits limit t = .ok (rows.take limit))
    {row : LogRow} (hcursor : row.cursor =
      if t.ready.isEmpty && t.pendingChildren.isEmpty then none
      else some (encodeLogCursor blake3 t)) : Resumes blake3 commits row rows := by
  split at hcursor
  · rename_i hended
    obtain ⟨hready, _⟩ := Bool.and_eq_true_iff.mp hended
    have hall := (h.finished hdag (ExtTreeSet.isEmpty_iff.mp hready)).1
    refine Or.inl ⟨hcursor, ?_⟩
    cases hlists with
    | nil _ =>
      cases hrows
      rfl
    | cons hnext _ => exact absurd (hall _ hnext.1.1) hnext.1.2.1
  · rename_i hgoes
    refine Or.inr ⟨_, t, hcursor, encodeLogCursor_ne_nil blake3 t, fun hnil => hgoes ?_,
      decodeLogCursor_encode hdag.width (h.sound hdag hstart) blake3, hcollect⟩
    cases hlists with
    | nil hall =>
      have hready := h.ready_empty hall
      rw [hready, (h.finished hdag hready).2]
      rfl
    | cons _ _ =>
      cases hrows
      cases hnil

/-- **The rows from any traversal on are the order of what is left.** -/
theorem collectLogRows_spec (hdag : CommitDag commits) (hstart : Stored commits start)
    (blake3 : Bytes → Bytes) (n : Nat) : ∀ {done : List HashId} {t : LogTraversal},
    (history commits start).nodes.countP (· ∉ done) < n → Represents commits start done t →
      ∃ (ids : List HashId) (rows : List LogRow), (history commits start).Lists done ids ∧
        List.Forall₂ (RowOf commits) ids rows ∧
        (∀ limit, collectLogRows blake3 commits limit t = .ok (rows.take limit)) ∧
        ∀ front row rest, rows = front ++ row :: rest → Resumes blake3 commits row rest := by
  induction n with
  | zero =>
    intro done t hn
    exact absurd hn (Nat.not_lt_zero _)
  | succ n ih =>
    intro done t hn h
    rcases nextLogCommit_spec hdag hstart h with ⟨hnext, hall⟩ | ⟨c, record, t', hnext, hrecord,
      hisnext, h'⟩
    · refine ⟨[], [], Library.Graph.Lists.nil hall, List.Forall₂.nil, fun limit => ?_, ?_⟩
      · cases limit with
        | zero => rfl
        | succ limit =>
          unfold collectLogRows
          rw [hnext]
          rfl
      · intro front row rest hrows
        simp at hrows
    · have hless : (history commits start).nodes.countP (· ∉ c :: done) + 1 ≤
          (history commits start).nodes.countP (· ∉ done) := by
        convert countP_unseen hisnext.1.1 hisnext.1.2.1
      obtain ⟨ids, rows, hlists, hrows, hcollect, hresumes⟩ := ih (by omega) h'
      obtain ⟨cursor, hcursor⟩ : ∃ cursor, cursor =
          if t'.ready.isEmpty && t'.pendingChildren.isEmpty then none
          else some (encodeLogCursor blake3 t') := ⟨_, rfl⟩
      have hrow : Resumes blake3 commits { commitRecordRow c record with cursor } rows :=
        resumes_of_step hdag hstart blake3 h' hlists hrows hcollect hcursor
      refine ⟨c :: ids, { commitRecordRow c record with cursor } :: rows,
        Library.Graph.Lists.cons hisnext hlists, List.Forall₂.cons ⟨record, hrecord, rfl⟩ hrows,
        fun limit => ?_, ?_⟩
      · cases limit with
        | zero => rfl
        | succ limit =>
          unfold collectLogRows
          rw [hnext, ok_bind]
          dsimp only
          rw [hcollect limit, ok_bind, ← hcursor, List.take_succ_cons]
      · intro front row rest hsplit
        cases front with
        | nil =>
          cases hsplit
          exact hrow
        | cons first front =>
          obtain ⟨_, hsplit⟩ := List.cons.inj hsplit
          exact hresumes front row rest hsplit

/-! ## 5. The procedure -/

theorem newLogTraversal_spec (hdag : CommitDag commits) (hstart : Stored commits start) :
    ∃ t, newLogTraversal commits start = .ok t ∧ Represents commits start [] t := by
  obtain ⟨row, hrow⟩ := hstart
  have hall : ∀ p, remaining commits start [] p = reachableChildCount commits start p := by
    unfold remaining reachableChildCount
    simp
  have hopen : ∀ id, (history commits start).Open [] id ↔ id = start := by
    intro id
    rw [open_iff, remaining_eq_zero]
    constructor
    · rintro ⟨hin, _, hchildren⟩
      cases hin with
      | refl => rfl
      | tail hfront hlast => exact absurd (hchildren _ hfront hlast) List.not_mem_nil
    · rintro rfl
      refine ⟨Relation.ReflTransGen.refl, List.not_mem_nil, fun c hc hchild => ?_⟩
      exact absurd (Relation.TransGen.tail' hc hchild) (hdag.acyclic _)
  refine ⟨{ start
            ready := (∅ : ExtTreeSet ReadyKey).insert (⟨row.metadata.committedAt⟩, start)
            pendingChildren := ∅ }, ?_, ?_⟩
  · unfold newLogTraversal
    rw [loadVersion_ok.mpr hrow, ok_bind]
  · refine ⟨rfl, fun key => ?_, fun p => ?_, fun a ha => ?_⟩
    · rw [ExtTreeSet.mem_insert, Std.compare_eq_iff_eq, hopen, ← readyKey_of_row hrow]
      constructor
      · rintro (rfl | hmem)
        · exact ⟨rfl, rfl⟩
        · exact absurd hmem ExtTreeSet.not_mem_empty
      · rintro ⟨hkey, heq⟩
        exact Or.inl (by rw [hkey, heq])
    · unfold waiting
      exact (if_pos (Or.inr (hall p))).symm
    · cases ha

/-- The arguments of a call for a page. -/
def pageArgs (version : Value) (limit : Int) (cursor : Option Text) : List Value :=
  [version, .integer limit] ++ (cursor.map Value.string).toList

/-- The pages a caller gets that follows the last cursor of each page; `none` when so many calls
    did not reach the end. -/
def LogContext.pages (x : LogContext) (commits : Commits) (version : Value) (limit : Int) :
    Nat → Option Text → QueryResult (Option (List (List LogRow)))
  | 0, _ => .ok none
  | calls + 1, cursor => do
    let page ← x.log commits (pageArgs version limit cursor)
    match page.getLast?.bind LogRow.cursor with
    | none => .ok (some [page])
    | some next => do
      let rest ← x.pages commits version limit calls (some next)
      .ok (rest.map fun pages => page :: pages)

/-- **What a listing read in pages is.** `ids` are the commits in their order, `rows` the rows of
    one page that is long enough. -/
structure LogPaged (x : LogContext) (commits : Commits) (start : HashId) (ids : List HashId)
    (rows : List LogRow) : Prop where
  /-- The commits of the history, -/
  complete : ∀ id, id ∈ ids ↔ InHistory commits start id
  /-- each once, -/
  once : ids.Nodup
  /-- none before a commit that descends from it; -/
  ordered : ids.Pairwise fun a b => ¬ Relation.TransGen (Child commits) b a
  /-- of those whose children were all listed the latest comes next, then the least identity. -/
  next : ∀ front id rest, ids = front ++ id :: rest →
    (history commits start).IsNext front.reverse id
  columns : List.Forall₂ (RowOf commits) ids rows
  /-- A first page holds the first rows, -/
  first : ∀ (args : List Value) (limit : Nat), (args[2]? : Option Value) = none →
    x.start args = .ok start → logLimit args = .ok limit →
      x.log commits args = .ok (rows.take limit)
  /-- and a cursor decodes, to what comes after its row. -/
  resumed : ∀ front row rest, rows = front ++ row :: rest →
    (row.cursor = none ∧ rest = []) ∨ ∃ text, row.cursor = some text ∧ rest ≠ [] ∧
      (∃ t, decodeLogCursor x.blake3 commits text = .ok t) ∧
      ∀ (args : List Value) (limit : Nat), (args[2]? : Option Value) = some (.string text) →
        logLimit args = .ok limit → x.log commits args = .ok (rest.take limit)
  /-- Whatever the size of the pages, they end, and are the rows one after the other; so are the
      rows of them that pass a filter. -/
  paged : ∀ (version : Value) (limit : Int), x.resolveDescriptor version = .ok start →
    0 < limit → limit < 2 ^ 63 → ∃ pages,
      x.pages commits version limit (rows.length + 1) none = .ok (some pages) ∧
      (∀ page ∈ pages, page.length ≤ limit.toNat) ∧ pages.flatten = rows ∧
      ∀ filter : LogRow → Bool, (pages.map (List.filter filter)).flatten = rows.filter filter

omit start in
theorem pages_spec {version : Value} {limit : Int} {size : Nat} (hsize : 0 < size) (calls : Nat) :
    ∀ (rows : List LogRow) (cursor : Option Text), rows.length < calls →
      x.log commits (pageArgs version limit cursor) = .ok (rows.take size) →
      (∀ front row rest, rows = front ++ row :: rest → (row.cursor = none ∧ rest = []) ∨
        ∃ text, row.cursor = some text ∧
          x.log commits (pageArgs version limit (some text)) = .ok (rest.take size)) →
      ∃ pages, x.pages commits version limit calls cursor = .ok (some pages) ∧
        (∀ page ∈ pages, page.length ≤ size) ∧ pages.flatten = rows := by
  induction calls with
  | zero =>
    intro rows cursor hlength
    exact absurd hlength (Nat.not_lt_zero _)
  | succ calls ih =>
    intro rows cursor hlength hpage hresumes
    have hshort : (rows.take size).length ≤ size := List.length_take_le _ _
    have hcut := List.take_append_drop size rows
    unfold LogContext.pages
    rw [hpage, ok_bind]
    cases hlast : (rows.take size).getLast? with
    | none =>
      have hnil : rows.take size = [] := List.getLast?_eq_none_iff.mp hlast
      have hrows : rows = [] := by
        rcases List.take_eq_nil_iff.mp hnil with hzero | hrows
        · omega
        · exact hrows
      refine ⟨[rows.take size], rfl, ?_, ?_⟩
      · intro page hmem
        rw [List.mem_singleton.mp hmem]
        exact hshort
      · rw [List.flatten_singleton, hnil, hrows]
    | some row =>
      obtain ⟨front, hfront⟩ := List.getLast?_eq_some_iff.mp hlast
      have hsplit : rows = front ++ row :: rows.drop size := by
        conv_lhs => rw [← hcut, hfront]
        rw [List.append_assoc, List.singleton_append]
      rw [Option.bind_some]
      rcases hresumes front row (rows.drop size) hsplit with ⟨hnone, hend⟩ | ⟨text, htext, hlog⟩
      · rw [hnone]
        refine ⟨[rows.take size], rfl, ?_, ?_⟩
        · intro page hmem
          rw [List.mem_singleton.mp hmem]
          exact hshort
        · rw [hend, List.append_nil] at hcut
          rw [List.flatten_singleton, hcut]
      · have hless : (rows.drop size).length < calls := by
          have htotal := congrArg List.length hsplit
          rw [List.length_append, List.length_cons] at htotal
          omega
        have hrest : ∀ front' row' rest, rows.drop size = front' ++ row' :: rest →
            (row'.cursor = none ∧ rest = []) ∨ ∃ text, row'.cursor = some text ∧
              x.log commits (pageArgs version limit (some text)) = .ok (rest.take size) := by
          intro front' row' rest hdrop
          refine hresumes (front ++ row :: front') row' rest ?_
          rw [hsplit, hdrop, List.append_assoc, List.cons_append]
        obtain ⟨pages, hpages, hsizes, hflat⟩ := ih (rows.drop size) (some text) hless hlog hrest
        rw [htext]
        refine ⟨rows.take size :: pages, ?_, ?_, ?_⟩
        · dsimp only
          rw [hpages]
          rfl
        · intro page hmem
          rcases List.mem_cons.mp hmem with rfl | hmem
          · exact hshort
          · exact hsizes page hmem
        · rw [List.flatten_cons, hflat, hcut]

omit start in
theorem LogContext.log_first {start : HashId} {args : List Value} {limit : Nat}
    (hcursor : (args[2]? : Option Value) = none) (hstart : x.start args = .ok start)
    (ht : newLogTraversal commits start = .ok t) (hlimit : logLimit args = .ok limit) :
    x.log commits args = collectLogRows x.blake3 commits limit t := by
  unfold LogContext.log LogContext.logRequest
  rw [hcursor]
  dsimp only
  rw [hstart, ok_bind, ht, ok_bind, hlimit]
  rfl

omit start in
theorem LogContext.log_resumed {args : List Value} {limit : Nat} {text : Text}
    (hcursor : (args[2]? : Option Value) = some (.string text)) (htext : text ≠ [])
    (ht : decodeLogCursor x.blake3 commits text = .ok t) (hlimit : logLimit args = .ok limit) :
    x.log commits args = collectLogRows x.blake3 commits limit t := by
  have hstring : stringValue (.string text) "cursor" = .ok text := by
    unfold stringValue
    exact if_pos htext
  unfold LogContext.log LogContext.logRequest
  rw [hcursor]
  dsimp only
  rw [hstring, ok_bind, ht, ok_bind, hlimit]
  rfl

omit start in
theorem logLimit_pageArgs (version : Value) {limit : Int} (cursor : Option Text)
    (hpos : 0 < limit) (hlt : limit < 2 ^ 63) :
    logLimit (pageArgs version limit cursor) = .ok limit.toNat := by
  unfold logLimit pageArgs
  simp only [List.cons_append, List.getElem?_cons_succ, List.getElem?_cons_zero]
  rw [if_pos hpos, if_pos (by omega)]

/-- **The pages of a listing, one after the other, are the history of its start**: every commit
    once, descendants first, the cursor of every row leading to what comes after it. -/
theorem log_paged (x : LogContext) (hdag : CommitDag commits) (hstart : Stored commits start) :
    ∃ ids rows, LogPaged x commits start ids rows := by
  obtain ⟨t, ht, hrep⟩ := newLogTraversal_spec hdag hstart
  obtain ⟨ids, rows, hlists, hrows, hcollect, hresumes⟩ :=
    collectLogRows_spec hdag hstart x.blake3 _ (Nat.lt_succ_self _) hrep
  have hfirst : ∀ (args : List Value) (limit : Nat), (args[2]? : Option Value) = none →
      x.start args = .ok start → logLimit args = .ok limit →
        x.log commits args = .ok (rows.take limit) := by
    intro args limit hcursor hargs hlimit
    rw [LogContext.log_first hcursor hargs ht hlimit, hcollect]
  have hresumed : ∀ front row rest, rows = front ++ row :: rest →
      (row.cursor = none ∧ rest = []) ∨ ∃ text, row.cursor = some text ∧ rest ≠ [] ∧
        (∃ t, decodeLogCursor x.blake3 commits text = .ok t) ∧
        ∀ (args : List Value) (limit : Nat), (args[2]? : Option Value) = some (.string text) →
          logLimit args = .ok limit → x.log commits args = .ok (rest.take limit) := by
    intro front row rest hsplit
    rcases hresumes front row rest hsplit with hend | ⟨text, t', hcursor, htext, hrest, ht', hgo⟩
    · exact Or.inl hend
    · refine Or.inr ⟨text, hcursor, hrest, ⟨t', ht'⟩, fun args limit hargs hlimit => ?_⟩
      rw [LogContext.log_resumed hargs htext ht' hlimit, hgo]
  refine ⟨ids, rows, fun id => ?_, hlists.nodup, hlists.ordered nodes_down ?_, ?_, hrows, hfirst,
    hresumed, ?_⟩
  · rw [hlists.mem_iff, mem_nodes]
    simp
  · intro a ha
    cases ha
  · intro front id rest hsplit
    have hnext := (hsplit ▸ hlists).next
    rwa [List.append_nil] at hnext
  · intro version limit hversion hpos hlt
    have hsize : 0 < limit.toNat := by omega
    obtain ⟨pages, hpages, hsizes, hflat⟩ := pages_spec hsize (rows.length + 1) rows
      none (Nat.lt_succ_self _)
      (hfirst _ _ rfl hversion (logLimit_pageArgs version none hpos hlt)) (by
        intro front row rest hsplit
        rcases hresumed front row rest hsplit with hend | ⟨text, hcursor, _, _, hgo⟩
        · exact Or.inl hend
        · exact Or.inr ⟨text, hcursor,
            hgo _ _ rfl (logLimit_pageArgs version (some text) hpos hlt)⟩)
    refine ⟨pages, hpages, hsizes, hflat, fun filter => ?_⟩
    rw [← List.filter_flatten, hflat]

end

/-- A commit by its number. -/
def numbered (n : UInt8) : HashId := List.replicate 32 n

def numberedRow (parent1 parent2 : Option HashId) (committedAt : Int) : CommitRecord :=
  { parent1, parent2, layerHash := [], schemaHash := [],
    metadata := { author := none, message := none, committedAt } }

/-- A merge of two commits of the same time. -/
def diamond : Commits :=
  (((∅ : Commits).insert (numbered 0) (numberedRow none none 1)).insert (numbered 1)
    (numberedRow (some (numbered 0)) none 2)).insert (numbered 2)
    (numberedRow (some (numbered 0)) none 2) |>.insert (numbered 3)
    (numberedRow (some (numbered 1)) (some (numbered 2)) 3)

theorem diamond_rows {id : HashId} {row : CommitRecord} (h : diamond[id]? = some row) :
    ∃ n : UInt8, id = numbered n ∧ ∀ p ∈ row.parents, ∃ m, m < n ∧ p = numbered m ∧
      Stored diamond p := by
  unfold diamond at h
  rw [lookup_insert, lookup_insert, lookup_insert, lookup_insert] at h
  split at h
  · rename_i hid
    cases h
    refine ⟨3, hid, fun p hp => ?_⟩
    rcases mem_parents.mp hp with h | h
    · cases h
      exact ⟨1, by decide, rfl, _, rfl⟩
    · cases h
      exact ⟨2, by decide, rfl, _, rfl⟩
  · split at h
    · rename_i hid
      cases h
      refine ⟨2, hid, fun p hp => ?_⟩
      rcases mem_parents.mp hp with h | h
      · cases h
        exact ⟨0, by decide, rfl, _, rfl⟩
      · cases h
    · split at h
      · rename_i hid
        cases h
        refine ⟨1, hid, fun p hp => ?_⟩
        rcases mem_parents.mp hp with h | h
        · cases h
          exact ⟨0, by decide, rfl, _, rfl⟩
        · cases h
      · split at h
        · rename_i hid
          cases h
          refine ⟨0, hid, fun p hp => ?_⟩
          rcases mem_parents.mp hp with h | h
          · cases h
          · cases h
        · simp at h

theorem diamond_dag : CommitDag diamond := by
  have hchild : ∀ c p, Child diamond c p →
      (p.headD 0).toNat < (c.headD 0).toNat ∧ Stored diamond p := by
    rintro c p ⟨row, hrow, hp⟩
    obtain ⟨n, rfl, hparents⟩ := diamond_rows hrow
    obtain ⟨m, hless, rfl, hstored⟩ := hparents p hp
    exact ⟨UInt8.lt_iff_toNat_lt.mp hless, hstored⟩
  have hdown : ∀ c p, Relation.TransGen (Child diamond) c p →
      (p.headD 0).toNat < (c.headD 0).toNat := by
    intro c p h
    induction h with
    | single hstep => exact (hchild _ _ hstep).1
    | tail _ hstep ih => exact Nat.lt_trans (hchild _ _ hstep).1 ih
  refine ⟨fun id row h => ?_, fun c p h => (hchild c p h).2, fun id h => ?_, by decide +kernel⟩
  · obtain ⟨n, rfl, _⟩ := diamond_rows h
    rfl
  · exact Nat.lt_irrefl _ (hdown id id h)

theorem log_paged_diamond : ∃ ids rows, LogPaged
    { blake3 := fun _ => numbered 0, activeHead := .ok (numbered 3),
      resolveDescriptor := fun _ => .ok (numbered 3) } diamond (numbered 3) ids rows :=
  log_paged _ diamond_dag ⟨_, rfl⟩

end Lithograph.Version
