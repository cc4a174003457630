/-
  File:      Lithograph/Version/BranchProtocol.lean
  Subject:   Commits on branches under any interleaving of calls (`storage/commit.rs`).

  A commit is a compare-and-set on its branch.

  * **`branchProtocol`**: the protocol: success, failure, ancestry and composition.
-/
import Lithograph.Version.RepositoryRuns

namespace Lithograph.Version.Repository

open Std Library Storage

/-! ## 1. Writes and branches -/

/-- A commit that landed on the branch, with its layer as it is stored. -/
def landed (branch : Text) : Op × Outcome → List (HashId × LayerBuilder)
  | (op, .committed commit) =>
    match op.input? with
    | some input => if input.branch = branch then [(commit, input.layer.1.canonical)] else []
    | none => []
  | _ => []

/-- The commits a call landed on the branch; one that failed landed none. -/
def landedCall (branch : Text) : List Op × Reply → List (HashId × LayerBuilder)
  | (ops, .ok outcomes) => (ops.zip outcomes).flatMap (landed branch)
  | (_, .error _) => []

/-- The commits a run landed on the branch, first one first. -/
def landedRun (branch : Text) (calls : List (List Op × Reply)) : List (HashId × LayerBuilder) :=
  calls.flatMap (landedCall branch)

/-- No successful call moves or deletes the branch. -/
def Untouched (branch : Text) (calls : List (List Op × Reply)) : Prop :=
  ∀ ops outcomes, (ops, Except.ok outcomes) ∈ calls → ∀ op ∈ ops, op.resets branch = false

/-- The commits `cs` lie on top of `base`, each the first parent of the next, and end at `head`. -/
def FirstParentPath (r : Repository) : HashId → List HashId → HashId → Prop
  | base, [], head => base = head
  | base, c :: cs, head =>
    (∃ row, r.commits[c]? = some row ∧ row.parent1 = some base) ∧ FirstParentPath r c cs head

variable {op : Op} {outcome : Outcome} {c : HashId} {ls : List LayerBuilder} {branch : Text}
  {input : CommitInput}

section Steps

variable {x : Hashing} {r r' : Repository}

/-- What a write that is no commit leaves of commits, layers and branches. -/
structure Untouching (op : Op) (r r' : Repository) : Prop where
  commits : r'.commits = r.commits
  layers : r'.layers = r.layers
  branches : ∀ (branch : Text) (c : HashId), op.resets branch = false →
    r.branches[branch]? = some c → r'.branches[branch]? = some c

/-- **What one write can do.** -/
theorem exec_cases (hl : Linked x r) (h : exec x op r = .ok outcome r') :
    (∃ input schemaHash commit, op.input? = some input ∧ outcome = .committed commit ∧
      Installed x input schemaHash r r' commit) ∨
    (op.input? = none ∧ Swept r r') ∨ (op.input? = none ∧ Untouching op r r') := by
  cases exec_written hl h with
  | installed hinput hinstalled => exact .inl ⟨_, _, _, hinput, rfl, hinstalled⟩
  | swept hinput hswept => exact .inr (.inl ⟨hinput, hswept⟩)
  | store hinput _ _ hbranches => exact .inr (.inr ⟨hinput, rfl, rfl, hbranches⟩)
  | tables hinput _ hcommits hlayers hbranches _ =>
    refine .inr (.inr ⟨hinput, hcommits, hlayers, fun _ _ _ h => ?_⟩)
    rw [hbranches]
    exact h

/-! ## 2. Paths and lineages over a write -/

/-- What is live keeps its row and its layer. -/
structure KeepsLive (r r' : Repository) : Prop where
  rows : ∀ (c : HashId) (row : PersistedCommitRow), r.Live c → r.commits[c]? = some row →
    r'.commits[c]? = some row
  layers : ∀ (c : HashId) (row : PersistedCommitRow) e, r.Live c → r.commits[c]? = some row →
    r.layers.layers[row.layerId]? = some e → r'.layers.layers[row.layerId]? = some e

theorem keepsLive_exec (hl : Linked x r) (h : exec x op r = .ok outcome r') : KeepsLive r r' := by
  rcases exec_cases hl h with ⟨input, schemaHash, commit, _, _, hinstalled⟩ | ⟨_, hswept⟩ | ⟨_, hsame⟩
  · exact ⟨fun _ _ _ hrow => hinstalled.keeps hrow,
      fun _ _ e _ _ he => (hinstalled.extends hl).layers _ e he⟩
  · exact ⟨fun c row hlive hrow => (hswept.commits c row).mpr ⟨hrow, hlive⟩,
      fun c row e hlive hrow he => (hswept.layers _ e).mpr
        ⟨he, c, row, (hswept.commits c row).mpr ⟨hrow, hlive⟩, rfl⟩⟩
  · refine ⟨fun c row _ hrow => ?_, fun c row e _ _ he => ?_⟩
    · rw [hsame.commits]
      exact hrow
    · rw [hsame.layers]
      exact he

theorem live_first {p : HashId} {row : PersistedCommitRow} (h : r.Live c)
    (hrow : r.commits[c]? = some row) (hp : row.parent1 = some p) : r.Live p := by
  refine h.parent hrow ?_
  unfold PersistedCommitRow.parents
  rw [hp]
  exact .head _

theorem FirstParentPath.live : ∀ {cs : List HashId} {base head : HashId},
    FirstParentPath r base cs head → r.Live head → r.Live base
  | [], base, head, h, hlive => by
    cases h
    exact hlive
  | c :: cs, base, head, ⟨⟨row, hrow, hparent⟩, h⟩, hlive =>
    live_first (FirstParentPath.live h hlive) hrow hparent

theorem KeepsLive.path (hk : KeepsLive r r') : ∀ {cs : List HashId} {base head : HashId},
    FirstParentPath r base cs head → r.Live head → FirstParentPath r' base cs head
  | [], _, _, h, _ => h
  | _ :: _, _, _, ⟨⟨row, hrow, hparent⟩, h⟩, hlive =>
    ⟨⟨row, hk.rows _ row (h.live hlive) hrow, hparent⟩, KeepsLive.path hk h hlive⟩

theorem FirstParentPath.snoc : ∀ {cs : List HashId} {base head c : HashId}
    {row : PersistedCommitRow}, FirstParentPath r base cs head → r.commits[c]? = some row →
      row.parent1 = some head → FirstParentPath r base (cs ++ [c]) c
  | [], _, _, c, row, h, hrow, hparent => by
    cases h
    exact ⟨⟨row, hrow, hparent⟩, rfl⟩
  | _ :: _, _, _, _, _, ⟨hfirst, h⟩, hrow, hparent => ⟨hfirst, h.snoc hrow hparent⟩

theorem FirstParentPath.onward : ∀ {cs : List HashId} {base head c : HashId},
    FirstParentPath r base cs head → c ∈ cs → ∃ rest, FirstParentPath r c rest head
  | b :: cs, base, head, c, ⟨_, h⟩, hc => by
    rcases List.mem_cons.mp hc with rfl | hc
    · exact ⟨cs, h⟩
    · exact h.onward hc

theorem KeepsLive.lineage (hk : KeepsLive r r')
    (h : Database.Lineage x.toExternals r.database c ls) :
    r.Live c → Database.Lineage x.toExternals r'.database c ls := by
  have hstores : ∀ {c : HashId} {full : PersistedCommitRow} {l : LayerBuilder}, r.Live c →
      r.commits[c]? = some full → r.database.Stores x.toExternals full.layerId l →
        r'.database.Stores x.toExternals full.layerId l := by
    rintro c full l hlive hfull ⟨rows, built, bytes, hentry, hrest⟩
    exact ⟨rows, built, bytes, hk.layers c full _ hlive hfull hentry, hrest⟩
  induction h with
  | @root c row l hrow hparent hl =>
    intro hlive
    obtain ⟨full, hfull, rfl⟩ := database_row hrow
    exact .root (database_row_of (hk.rows c full hlive hfull)) hparent (hstores hlive hfull hl)
  | @child c parent row l ls hrow hparent hl _ ih =>
    intro hlive
    obtain ⟨full, hfull, rfl⟩ := database_row hrow
    exact .child (database_row_of (hk.rows c full hlive hfull)) hparent (hstores hlive hfull hl)
      (ih (live_first hlive hfull hparent))

theorem live_branch (h : r.branches[branch]? = some c) : r.Live c := by
  refine ⟨c, ?_, .refl⟩
  exact List.mem_append_left _ (List.mem_append_left _
    (List.mem_map_of_mem (mem_of_lookup h)))

/-! ## 3. Where a branch stands -/

/-- **Where a branch stands** after the commits `done` landed on it: at the last of them, over the
    layers of all. -/
def Stands (x : Hashing) (branch : Text) (base : HashId) (ls : List LayerBuilder)
    (done : List (HashId × LayerBuilder)) (r : Repository) : Prop :=
  ∃ head, r.branches[branch]? = some head ∧ FirstParentPath r base (done.map Prod.fst) head ∧
    Database.Lineage x.toExternals r.database head ((done.map Prod.snd).reverse ++ ls)

theorem Installed.lineage (hl : Linked x r) {input : CommitInput} {schemaHash commit : HashId}
    (h : Installed x input schemaHash r r' commit) {ls : List LayerBuilder}
    (hls : Database.Lineage x.toExternals r.database input.expectedHead ls) :
    Database.Lineage x.toExternals r'.database commit (input.layer.1.canonical :: ls) := by
  obtain ⟨layerId, layerHash, layers, hlayers, _, hr', hcommits⟩ := h.tables
  obtain ⟨rows, built, bytes, hentry, hbuilt, hbytes, hrows, hcanonical, _⟩ :=
    LayerTable.persistLayer_changes x.hash x.real hl.sound.layers input.layer.2 hlayers
  have hrow : r'.commits[commit]? = some (input.row schemaHash layerId) := by
    rw [hcommits, if_pos rfl]
  refine .child (database_row_of hrow) rfl ⟨rows, built, bytes, ?_, hbuilt, hbytes, hrows,
    hcanonical⟩ ((h.extends hl).lineage hls)
  show r'.layers.layers[layerId]? = _
  rw [hr']
  exact hentry

variable {base : HashId}

theorem stands_exec (hl : Linked x r) {done : List (HashId × LayerBuilder)}
    (hs : Stands x branch base ls done r) (hreset : op.resets branch = false)
    (h : exec x op r = .ok outcome r') :
    Stands x branch base ls (done ++ landed branch (op, outcome)) r' := by
  have hk := keepsLive_exec hl h
  obtain ⟨head, hhead, hpath, hlineage⟩ := hs
  have hlive := live_branch hhead
  -- a write that lands nothing and leaves the branch
  have hstay : r'.branches[branch]? = some head → Stands x branch base ls (done ++ []) r' := by
    intro hhead'
    rw [List.append_nil]
    exact ⟨head, hhead', hk.path hpath hlive, hk.lineage hlineage hlive⟩
  have hnothing : op.input? = none → landed branch (op, outcome) = [] := by
    intro hinput
    unfold landed
    cases outcome with
    | committed commit =>
      dsimp only
      rw [hinput]
    | collected counters => rfl
    | done => rfl
  rcases exec_cases hl h with ⟨input, schemaHash, commit, hinput, rfl, hinstalled⟩ |
    ⟨hinput, hswept⟩ | ⟨hinput, hsame⟩
  · obtain ⟨_, _, _, _, _, hr', hcommits⟩ := hinstalled.tables
    have hbranches : r'.branches = r.branches.insert input.branch commit := by rw [hr']
    unfold landed
    dsimp only
    rw [hinput]
    dsimp only
    split
    · rename_i hbranch
      have hexpected : input.expectedHead = head := by
        have hat := hinstalled.head
        rw [hbranch, hhead] at hat
        exact (Option.some.inj hat).symm
      refine ⟨commit, ?_, ?_, ?_⟩
      · rw [hbranches, ← hbranch, lookup_insert, if_pos rfl]
      · rw [List.map_append]
        refine (hk.path hpath hlive).snoc (hcommits commit |>.trans (if_pos rfl)) ?_
        rw [← hexpected]
        rfl
      · rw [List.map_append, List.reverse_append]
        rw [← hexpected] at hlineage
        exact hinstalled.lineage hl hlineage
    · rename_i hbranch
      refine hstay ?_
      rw [hbranches, lookup_insert, if_neg fun e => hbranch e.symm]
      exact hhead
  · rw [hnothing hinput]
    refine hstay ?_
    rw [hswept.rest]
    exact hhead
  · rw [hnothing hinput]
    exact hstay (hsame.branches branch head hreset hhead)

theorem stands_execAll {branch : Text} {ls : List LayerBuilder} :
    ∀ {ops : List Op} {r r' : Repository} {outcomes : List Outcome}
      {done : List (HashId × LayerBuilder)}, Linked x r → Stands x branch base ls done r →
        (∀ op ∈ ops, op.resets branch = false) → execAll x ops r = .ok outcomes r' →
          Stands x branch base ls (done ++ (ops.zip outcomes).flatMap (landed branch)) r'
  | [], r, r', outcomes, done, hl, hs, _, h => by
    obtain ⟨rfl, rfl⟩ := tx_pure_ok.mp h
    rw [List.zip_nil_left, List.flatMap_nil, List.append_nil]
    exact hs
  | op :: ops, r, r', outcomes, done, hl, hs, hresets, h => by
    simp only [execAll, tx_bind_ok, tx_pure_ok] at h
    obtain ⟨outcome, mid, hop, rest, _, hrest, rfl, rfl⟩ := h
    have hone := stands_exec hl hs (hresets op (.head _)) hop
    have hall := stands_execAll (linked_exec hl hop) hone
      (fun o ho => hresets o (.tail _ ho)) hrest
    rw [List.zip_cons_cons, List.flatMap_cons, ← List.append_assoc]
    exact hall

/-- **A run moves a branch by what it lands on it.** -/
theorem stands_run {calls : List (List Op × Reply)} (h : Trace (Step x) r calls r') :
    ∀ {done : List (HashId × LayerBuilder)}, Linked x r → Stands x branch base ls done r →
      Untouched branch calls → Stands x branch base ls (done ++ landedRun branch calls) r' := by
  induction h with
  | nil r =>
    intro done _ hs _
    unfold landedRun
    rw [List.flatMap_nil, List.append_nil]
    exact hs
  | @cons r t u call calls hstep _ ih =>
    intro done hl hs huntouched
    have hrest : Untouched branch calls := fun ops outcomes hmem =>
      huntouched ops outcomes (.tail _ hmem)
    have hone : Stands x branch base ls (done ++ landedCall branch call) t := by
      obtain ⟨ops, reply⟩ := call
      cases reply with
      | ok outcomes =>
        exact stands_execAll hl hs (huntouched ops outcomes (.head _))
          (savepoint_ok.mp hstep)
      | error e =>
        cases savepoint_error hstep
        rw [show landedCall branch (ops, .error e) = [] from rfl, List.append_nil]
        exact hs
    have hall := ih (linked_step hl hstep) hone hrest
    unfold landedRun at hall ⊢
    rw [List.flatMap_cons, ← List.append_assoc]
    exact hall

end Steps

/-! ## 4. The protocol -/

/-- A state inside a call: some of its writes are done. -/
def Within (x : Hashing) (mid : Repository) : Prop :=
  ∃ r ops outcomes, Reaches x r ∧ execAll x ops r = .ok outcomes mid

/-- **The branch protocol.** -/
structure BranchProtocol (x : Hashing) : Prop where
  /-- A commit that succeeds moves its branch, and no other, from the expected head to itself,
      and has the expected head as its first parent. -/
  success : ∀ {r r' : Repository} {op : Op} {input : CommitInput} {outcome : Outcome},
    Within x r → op.input? = some input → exec x op r = .ok outcome r' →
      ∃ commit row, outcome = .committed commit ∧
        r.branches[input.branch]? = some input.expectedHead ∧
        r'.branches = r.branches.insert input.branch commit ∧
        r'.commits[commit]? = some row ∧ row.parent1 = some input.expectedHead ∧
        row.parent2 = input.secondParent ∧
        ∀ (c : HashId) (old : PersistedCommitRow), r.commits[c]? = some old →
          r'.commits[c]? = some old
  /-- A commit whose expected head is not the head of its branch fails, and its call changes
      nothing, whatever the call did before. -/
  stale : ∀ {r mid : Repository} {before after : List Op} {outcomes : List Outcome} {op : Op}
    {input : CommitInput}, execAll x before r = .ok outcomes mid → op.input? = some input →
      mid.branches[input.branch]? ≠ some input.expectedHead →
        ∃ e, savepoint (execAll x (before ++ op :: after)) r = (.error e, r)
  /-- A call that fails, for whatever reason, changes nothing. -/
  failed : ∀ {r r' : Repository} {ops : List Op} {e : StorageError},
    Step x r (ops, .error e) r' → r' = r
  /-- Until a branch is moved or deleted, its head lies above the commits that landed on it, in
      their order and over the commit it stood at, and is loaded as the composition of their
      layers over that commit. -/
  history : ∀ {r r' : Repository} {branch : Text} {base : HashId}
    {calls : List (List Op × Reply)}, Reaches x r → r.branches[branch]? = some base →
      Trace (Step x) r calls r' → Untouched branch calls →
        ∃ head ls ids, r'.branches[branch]? = some head ∧
          FirstParentPath r' base ((landedRun branch calls).map Prod.fst) head ∧
          (∀ c ∈ (landedRun branch calls).map Prod.fst, ∃ rest, FirstParentPath r' c rest head) ∧
          Database.Lineage x.toExternals r.database base ls ∧
          r'.database.firstParentLayers head = .ok ids ∧
          List.Forall₂ (r'.database.Stores x.toExternals) ids
            (ls.reverse ++ (landedRun branch calls).map Prod.snd) ∧
          ∃ s, r'.database.resolveState x.toExternals head none = .ok s ∧
            s.snapshot.graph =
              Database.applyAll ((landedRun branch calls).map Prod.snd).reverse
                (Database.graphOf ls)

section Protocol

variable {x : Hashing} {r r' : Repository}

theorem linked_within (h : Within x r) : Linked x r := by
  obtain ⟨r₀, ops, outcomes, hr, hops⟩ := h
  exact linked_execAll (linked_reaches hr) hops

theorem installed_of_exec (hl : Linked x r) (hinput : op.input? = some input)
    (h : exec x op r = .ok outcome r') : ∃ schemaHash commit, outcome = .committed commit ∧
      Installed x input schemaHash r r' commit := by
  rcases exec_cases hl h with ⟨input', schemaHash, commit, hinput', rfl, hinstalled⟩ |
    ⟨hnone, _⟩ | ⟨hnone, _⟩
  · rw [hinput] at hinput'
    cases hinput'
    exact ⟨schemaHash, commit, rfl, hinstalled⟩
  · rw [hinput] at hnone
    cases hnone
  · rw [hinput] at hnone
    cases hnone

theorem exec_stale (hinput : op.input? = some input)
    (hstale : r.branches[input.branch]? ≠ some input.expectedHead) :
    exec x op r ≠ .ok outcome r' := by
  intro h
  cases op with
  | commit input' =>
    cases hinput
    simp only [exec, tx_bind_ok, tx_pure_ok] at h
    obtain ⟨_, _, hcommit, _, _⟩ := h
    obtain ⟨_, _, hinstalled⟩ := commitLayer_ok hcommit
    exact hstale hinstalled.head
  | commitWithSchema input' schemaHash =>
    cases hinput
    simp only [exec, tx_bind_ok, tx_pure_ok] at h
    obtain ⟨_, _, hcommit, _, _⟩ := h
    exact hstale (commitLayerWithSchema_ok hcommit).head
  | _ => cases hinput

theorem execAll_append : ∀ {before after : List Op} {r r' : Repository} {outcomes : List Outcome},
    execAll x (before ++ after) r = .ok outcomes r' →
      ∃ done rest mid, execAll x before r = .ok done mid ∧ execAll x after mid = .ok rest r'
  | [], after, r, r', outcomes, h => ⟨[], outcomes, r, rfl, h⟩
  | op :: before, after, r, r', outcomes, h => by
    rw [List.cons_append] at h
    simp only [execAll, tx_bind_ok, tx_pure_ok] at h
    obtain ⟨outcome, one, hop, others, _, hothers, rfl, rfl⟩ := h
    obtain ⟨done, rest, mid, hdone, hrest⟩ := execAll_append hothers
    refine ⟨outcome :: done, rest, mid, ?_, hrest⟩
    simp only [execAll, tx_bind_ok, tx_pure_ok]
    exact ⟨outcome, one, hop, done, mid, hdone, rfl, rfl⟩

theorem stale_fails {mid : Repository} {before after : List Op} {outcomes : List Outcome}
    (hbefore : execAll x before r = .ok outcomes mid) (hinput : op.input? = some input)
    (hstale : mid.branches[input.branch]? ≠ some input.expectedHead) :
    ∃ e, savepoint (execAll x (before ++ op :: after)) r = (.error e, r) := by
  unfold savepoint
  cases hall : execAll x (before ++ op :: after) r with
  | error e t => exact ⟨e, rfl⟩
  | ok outcomes' t =>
    obtain ⟨done, rest, mid', hdone, hrest⟩ := execAll_append hall
    rw [hbefore] at hdone
    cases hdone
    simp only [execAll, tx_bind_ok] at hrest
    obtain ⟨outcome, _, hop, _⟩ := hrest
    exact absurd hop (exec_stale hinput hstale)

/-- **Commits on branches keep the protocol.** -/
theorem branchProtocol (x : Hashing) : BranchProtocol x where
  success := by
    intro r r' op input outcome hwithin hinput h
    obtain ⟨schemaHash, commit, rfl, hinstalled⟩ :=
      installed_of_exec (linked_within hwithin) hinput h
    obtain ⟨layerId, _, _, _, _, hr', hcommits⟩ := hinstalled.tables
    refine ⟨commit, input.row schemaHash layerId, rfl, hinstalled.head, by rw [hr'],
      by rw [hcommits, if_pos rfl], rfl, rfl, fun c old hold => hinstalled.keeps hold⟩
  stale := stale_fails
  failed := fun h => savepoint_error h
  history := by
    intro r r' branch base calls hr hbase hrun huntouched
    have hl := linked_reaches hr
    obtain ⟨row, hrow⟩ := hl.head hbase
    obtain ⟨ls, hls, _⟩ := hl.sound.commits base _ (database_row_of hrow)
    have hstart : Stands x branch base ls [] r := ⟨base, hbase, rfl, hls⟩
    obtain ⟨head, hhead, hpath, hlineage⟩ := stands_run hrun hl hstart huntouched
    have hl' : Linked x r' :=
      trace_inv (Linked x) (fun _ _ _ hl hstep => linked_step hl hstep) hrun hl
    obtain ⟨ids, hids, hstored⟩ := Database.firstParentLayersFrom_ok hlineage
      (r'.database.commits.size + 1) (Nat.le_succ_of_le hlineage.length_le)
    obtain ⟨row', hrow'⟩ := hl'.head hhead
    obtain ⟨s, ls', hresolve, hls', hgraph, _⟩ := hl'.sound.resolve (database_row_of hrow') none
    refine ⟨head, ls, ids.reverse, hhead, hpath, fun c hc => hpath.onward hc, hls, hids, ?_, s,
      hresolve, ?_⟩
    · have hback := List.rel_reverse hstored
      rw [List.reverse_append, List.reverse_reverse] at hback
      exact hback
    · rw [hgraph, hls'.unique hlineage]
      exact Database.applyAll_append _ _ _

end Protocol

end Lithograph.Version.Repository
