/-
  File:      Lithograph/Version/RepositoryRuns.lean
  Subject:   Runs of a repository, and what garbage collection keeps over them.

  * **`collectGarbage_safe`**: in every repository a run reaches, garbage collection keeps what
    references and sessions need and leaves nothing dangling and nothing orphaned.
-/
import Lithograph.Version.Collection

namespace Lithograph.Version.Repository

open Std Library Storage

/-! ## 1. Every write keeps the sides together -/

/-- The write is a commit. -/
def Op.input? : Op → Option CommitInput
  | .commit input => some input
  | .commitWithSchema input _ => some input
  | _ => none

/-- The write moves or deletes the branch. -/
def Op.resets (branch : Text) : Op → Bool
  | .branchDelete _ name => name = branch
  | .branchMove name _ _ => name = branch
  | _ => false

section Runs

variable {x : Hashing} {r r' : Repository}

theorem linked_withStore (hl : Linked x r) {s : Store} (hcommits : s.commits = r.store.commits)
    (hs : Coherent s) : Linked x (r.withStore s) := by
  refine ⟨hl.sound, ?_, hl.layers, hl.schemas⟩
  rw [store_withStore hcommits]
  exact hs

theorem linked_same (hl : Linked x r) (hdatabase : r'.database = r.database)
    (hstore : r'.store = r.store) (hlayers : r'.layers = r.layers) (hcommits : r'.commits = r.commits)
    (hschemas : ∀ (hash : HashId) (blob : Bytes), r.schemas[hash]? = some blob →
      ∃ blob', r'.schemas[hash]? = some blob') : Linked x r' := by
  refine ⟨?_, ?_, ?_, fun c row hrow => ?_⟩
  · rw [hdatabase]
    exact hl.sound
  · rw [hstore]
    exact hl.coherent
  · rw [hlayers, hcommits]
    exact hl.layers
  · rw [hcommits] at hrow
    obtain ⟨blob, hblob⟩ := hl.schemas c row hrow
    exact hschemas _ blob hblob

theorem persistSchemaBlob_ok {canonicalBlob : Bytes} {schemaHash : HashId}
    (h : persistSchemaBlob x canonicalBlob r = .ok schemaHash r') :
    r' = { r with schemas := r'.schemas } ∧
      (∀ (hash : HashId) (blob : Bytes), r.schemas[hash]? = some blob →
        r'.schemas[hash]? = some blob) ∧
      ∀ (hash : HashId) (blob : Bytes), r'.schemas[hash]? = some blob →
        r.schemas[hash]? = some blob ∨ canonicalBlob = blob := by
  unfold persistSchemaBlob at h
  dsimp only at h
  split at h
  · rename_i hfresh
    cases h
    refine ⟨rfl, fun hash blob hblob => ?_, fun hash blob hblob => ?_⟩
    · have hne : hash ≠ x.hash canonicalBlob := by
        intro hh
        rw [hh, hfresh] at hblob
        cases hblob
      rw [lookup_insert, if_neg hne]
      exact hblob
    · rw [lookup_insert] at hblob
      split at hblob
      · exact .inr (Option.some.inj hblob)
      · exact .inl hblob
  · split at h
    · cases h
      exact ⟨rfl, fun _ _ hblob => hblob, fun _ _ => .inl⟩
    · cases h

theorem createBranchRef_fresh {name : Text} {source : HashId} {store store' : Store} {u : Unit}
    (h : createBranchRef name source store = .ok u store') : store.branches[name]? = none := by
  unfold createBranchRef at h
  simp only [tx_bind_ok, lifted_ok, reading_ok] at h
  obtain ⟨_, _, ⟨_, rfl⟩, _, _, ⟨_, rfl⟩, h⟩ := h
  unfold insertBranch at h
  split at h
  · cases h
  · rename_i hnew
    cases hb : store.branches[name]? with
    | none => rfl
    | some c =>
      refine absurd ?_ hnew
      rw [← ExtTreeMap.isSome_getElem?_eq_contains, hb]
      rfl

theorem createCheckpoint_ok {commit : HashId} {u : Unit}
    (h : createCheckpoint x commit r = .ok u r') :
    r.database.createCheckpoint x.toExternals commit = .ok r'.database ∧
      r' = { r with checkpoints := r'.checkpoints } := by
  unfold createCheckpoint at h
  split at h
  · rename_i db hdb
    cases h
    refine ⟨?_, rfl⟩
    rcases Database.createCheckpoint_ok hdb with rfl | ⟨cp, _, rfl, _⟩
    · exact hdb
    · exact hdb
  · cases h

/-- What a write leaves: a commit, less garbage, references and sessions, or tables nothing else
    reads. -/
inductive Written (x : Hashing) (r : Repository) : Op → Outcome → Repository → Prop
  | installed {op : Op} {input : CommitInput} {schemaHash commit : HashId} {r' : Repository} :
      op.input? = some input → Installed x input schemaHash r r' commit →
        Written x r op (.committed commit) r'
  | swept {op : Op} {outcome : Outcome} {r' : Repository} : op.input? = none → Swept r r' →
      Written x r op outcome r'
  | store {op : Op} {outcome : Outcome} {s : Store} : op.input? = none →
      s.commits = r.store.commits → Coherent s →
      (∀ (branch : Text) (c : HashId), op.resets branch = false →
        r.branches[branch]? = some c → s.branches[branch]? = some c) →
      Written x r op outcome (r.withStore s)
  | tables {op : Op} {outcome : Outcome} {r' : Repository} : op.input? = none → Linked x r' →
      r'.commits = r.commits → r'.layers = r.layers → r'.branches = r.branches →
      (∀ (hash : HashId) (blob : Bytes), r'.schemas[hash]? = some blob →
        r.schemas[hash]? = some blob ∨ op = .persistSchema blob) → Written x r op outcome r'

/-- **Every write is of one of these kinds.** -/
theorem exec_written (hl : Linked x r) {op : Op} {outcome : Outcome}
    (h : exec x op r = .ok outcome r') : Written x r op outcome r' := by
  cases op with
  | allocate allocation =>
    obtain ⟨_, _, rfl, _, rfl⟩ := h
    exact .tables rfl ⟨Database.sound_step hl.sound (.identities (allocation.grows r.ids)),
      hl.coherent, hl.layers, hl.schemas⟩ rfl rfl rfl fun _ _ => .inl
  | persistSchema canonicalBlob =>
    simp only [exec, tx_bind_ok, tx_pure_ok] at h
    obtain ⟨_, written, hpersist, _, rfl⟩ := h
    obtain ⟨hr', hkeep, hnew⟩ := persistSchemaBlob_ok hpersist
    have hlinked : Linked x written := by
      refine linked_same hl ?_ ?_ ?_ ?_ fun hash blob hblob => ⟨blob, hkeep hash blob hblob⟩
      all_goals rw [hr']
      all_goals rfl
    refine .tables rfl hlinked ?_ ?_ ?_ fun hash blob hblob => ?_
    · rw [hr']
    · rw [hr']
    · rw [hr']
    · exact (hnew hash blob hblob).imp id fun h => by rw [h]
  | commit input =>
    simp only [exec, tx_bind_ok, tx_pure_ok] at h
    obtain ⟨commit, _, hcommit, rfl, rfl⟩ := h
    obtain ⟨_, _, hinstalled⟩ := commitLayer_ok hcommit
    exact .installed rfl hinstalled
  | commitWithSchema input schemaHash =>
    simp only [exec, tx_bind_ok, tx_pure_ok] at h
    obtain ⟨commit, _, hcommit, rfl, rfl⟩ := h
    exact .installed rfl (commitLayerWithSchema_ok hcommit)
  | branchCreate name source =>
    simp only [exec, tx_bind_ok, tx_pure_ok, onStore_ok] at h
    obtain ⟨_, _, ⟨s, hs, rfl⟩, _, rfl⟩ := h
    have hfresh := createBranchRef_fresh hs
    obtain ⟨hsource, rfl⟩ := createBranchRef_ok hs
    refine .store rfl rfl (coherent_refs hl.coherent rfl rfl rfl
      (fun _ _ => ref_insert hsource) fun _ _ ht => .inl ht) fun branch c _ hb => ?_
    have hne : branch ≠ name := by
      intro hbranch
      have hold : r.store.branches[branch]? = some c := hb
      rw [hbranch, hfresh] at hold
      cases hold
    show (r.branches.insert name source)[branch]? = some c
    rw [lookup_insert, if_neg hne]
    exact hb
  | branchDelete active name =>
    simp only [exec, tx_bind_ok, tx_pure_ok, onStore_ok] at h
    obtain ⟨_, _, ⟨s, hs, rfl⟩, _, rfl⟩ := h
    cases deleteBranchRef_ok hs
    refine .store rfl rfl (coherent_refs hl.coherent rfl rfl rfl
      (fun _ _ => ref_erase) fun _ _ ht => .inl ht) fun branch c hreset hb => ?_
    have hne : branch ≠ name := fun e => of_decide_eq_false hreset e.symm
    show (r.branches.erase name)[branch]? = some c
    rw [lookup_erase, if_neg hne]
    exact hb
  | branchMove name expected target =>
    simp only [exec, tx_bind_ok, tx_pure_ok, onStore_ok] at h
    obtain ⟨_, _, ⟨s, hs, rfl⟩, _, rfl⟩ := h
    obtain ⟨htarget, ⟨_, _, rfl⟩ | ⟨_, _, _, _, rfl⟩⟩ := moveBranchRef_ok hs
    · exact .store rfl rfl hl.coherent fun _ _ _ hb => hb
    · refine .store rfl rfl (coherent_refs hl.coherent rfl rfl rfl
        (fun _ _ => ref_insert htarget) fun _ _ ht => .inl ht) fun branch c hreset hb => ?_
      have hne : branch ≠ name := fun e => of_decide_eq_false hreset e.symm
      show (r.branches.insert name target)[branch]? = some c
      rw [lookup_insert, if_neg hne]
      exact hb
  | tagCreate name target =>
    simp only [exec, tx_bind_ok, tx_pure_ok, onStore_ok] at h
    obtain ⟨_, _, ⟨s, hs, rfl⟩, _, rfl⟩ := h
    obtain ⟨htarget, rfl⟩ := createTag_ok hs
    exact .store rfl rfl (coherent_refs hl.coherent rfl rfl rfl
      (fun _ _ hb => .inl hb) fun _ _ => ref_insert htarget) fun _ _ _ hb => hb
  | tagMove name target =>
    simp only [exec, tx_bind_ok, tx_pure_ok, onStore_ok] at h
    obtain ⟨_, _, ⟨s, hs, rfl⟩, _, rfl⟩ := h
    obtain ⟨htarget, rfl | rfl⟩ := moveTag_ok hs
    · exact .store rfl rfl hl.coherent fun _ _ _ hb => hb
    · exact .store rfl rfl (coherent_refs hl.coherent rfl rfl rfl
        (fun _ _ hb => .inl hb) fun _ _ => ref_insert htarget) fun _ _ _ hb => hb
  | tagDelete name =>
    simp only [exec, tx_bind_ok, tx_pure_ok, onStore_ok] at h
    obtain ⟨_, _, ⟨s, hs, rfl⟩, _, rfl⟩ := h
    cases deleteTag_ok hs
    exact .store rfl rfl (coherent_refs hl.coherent rfl rfl rfl
      (fun _ _ hb => .inl hb) fun _ _ => ref_erase) fun _ _ _ hb => hb
  | sessionCreate id targetBranch ours theirs expectedHead createdAt =>
    simp only [exec, tx_bind_ok, tx_pure_ok, onStore_ok] at h
    obtain ⟨_, _, ⟨s, hs, rfl⟩, _, rfl⟩ := h
    obtain ⟨_, hours, htheirs, rfl, rfl⟩ := createMergeSession_ok hs
    exact .store rfl rfl (coherent_opened hl.coherent hours htheirs) fun _ _ _ hb => hb
  | sessionResolve id expectedRevision replacements changed =>
    simp only [exec, tx_bind_ok, tx_pure_ok, onStore_ok] at h
    obtain ⟨_, _, ⟨s, hs, rfl⟩, _, rfl⟩ := h
    obtain ⟨record, hrow, _, _, hsessions, hrest⟩ := updateMergeResolutions_ok hs
    refine .store rfl (by rw [hrest]) (coherent_resolved hl.coherent hrow hsessions hrest)
      fun branch c _ hb => ?_
    rw [hrest]
    exact hb
  | sessionDelete id expectedRevision =>
    simp only [exec, tx_bind_ok, tx_pure_ok, onStore_ok] at h
    obtain ⟨_, _, ⟨s, hs, rfl⟩, _, rfl⟩ := h
    rcases deleteMergeSession_ok hs with ⟨_, _, rfl⟩ | ⟨_, _, _, _, rfl⟩
    · exact .store rfl rfl hl.coherent fun _ _ _ hb => hb
    · exact .store rfl rfl (coherent_closed hl.coherent) fun _ _ _ hb => hb
  | dataSet commit dataJson =>
    simp only [exec, setCommitData, tx_bind_ok, tx_pure_ok, reading_ok, writing_ok] at h
    obtain ⟨_, _, ⟨_, _, ⟨_, rfl⟩, rfl⟩, _, rfl⟩ := h
    exact .tables rfl (linked_same hl rfl rfl rfl rfl fun _ blob hblob => ⟨blob, hblob⟩) rfl rfl rfl
      fun _ _ => .inl
  | dataClear commit =>
    simp only [exec, clearCommitData, tx_bind_ok, tx_pure_ok, reading_ok, writing_ok] at h
    obtain ⟨_, _, ⟨_, _, ⟨_, rfl⟩, rfl⟩, _, rfl⟩ := h
    exact .tables rfl (linked_same hl rfl rfl rfl rfl fun _ blob hblob => ⟨blob, hblob⟩) rfl rfl rfl
      fun _ _ => .inl
  | checkpointCreate commit =>
    simp only [exec, tx_bind_ok, tx_pure_ok] at h
    obtain ⟨_, _, hcreate, _, rfl⟩ := h
    obtain ⟨hdatabase, hr'⟩ := createCheckpoint_ok hcreate
    have hsound := Database.sound_step hl.sound (.createCheckpoint r.database commit)
    rw [hdatabase] at hsound
    rw [hr'] at hsound ⊢
    exact .tables rfl ⟨hsound, hl.coherent, hl.layers, hl.schemas⟩ rfl rfl rfl fun _ _ => .inl
  | checkpointDelete commit =>
    obtain ⟨_, _, rfl, _, rfl⟩ := h
    exact .tables rfl ⟨Database.sound_step hl.sound (.deleteCheckpoint r.database commit),
      hl.coherent, hl.layers, hl.schemas⟩ rfl rfl rfl fun _ _ => .inl
  | gc =>
    simp only [exec, tx_bind_ok, tx_pure_ok] at h
    obtain ⟨_, _, hgc, _, rfl⟩ := h
    obtain ⟨_, _, hgc', hswept⟩ := collectGarbage_swept hl
    rw [hgc'] at hgc
    cases hgc
    exact .swept rfl hswept

/-- **Every write keeps the sides together.** -/
theorem linked_exec (hl : Linked x r) {op : Op} {outcome : Outcome}
    (h : exec x op r = .ok outcome r') : Linked x r' := by
  cases exec_written hl h with
  | installed _ hinstalled => exact linked_installed hl hinstalled
  | swept _ hswept => exact linked_swept hl hswept
  | store _ hcommits hcoherent _ => exact linked_withStore hl hcommits hcoherent
  | tables _ hlinked _ _ _ _ => exact hlinked

theorem linked_execAll : ∀ {ops : List Op} {r r' : Repository} {outcomes : List Outcome},
    Linked x r → execAll x ops r = .ok outcomes r' → Linked x r'
  | [], r, r', outcomes, hl, h => by
    obtain ⟨_, rfl⟩ := tx_pure_ok.mp h
    exact hl
  | op :: ops, r, r', outcomes, hl, h => by
    simp only [execAll, tx_bind_ok, tx_pure_ok] at h
    obtain ⟨_, mid, hop, _, _, hrest, _, rfl⟩ := h
    exact linked_execAll (linked_exec hl hop) hrest

theorem linked_step {call : List Op × Reply} (hl : Linked x r) (h : Step x r call r') :
    Linked x r' := by
  obtain ⟨ops, reply⟩ := call
  cases reply with
  | ok outcomes => exact linked_execAll hl (savepoint_ok.mp h)
  | error e =>
    cases savepoint_error h
    exact hl

theorem linked_fresh {schemaBlob : Bytes} {rootMetadata : CommitMetadata}
    (h : initializeRoot x schemaBlob rootMetadata = .ok r) : Linked x r := by
  obtain ⟨⟨⟨id, hash⟩, layers⟩, hpersist, h⟩ := bind_eq_ok.mp h
  cases h
  obtain ⟨_, _, _, hcase⟩ := LayerTable.persistLayer_ok x.hash x.real hpersist
  have honly : ∀ {c root : HashId} {full row : PersistedCommitRow},
      ((∅ : ExtTreeMap HashId PersistedCommitRow).insert root full)[c]? = some row →
        c = root ∧ row = full := by
    intro c root full row hrow
    rw [lookup_insert] at hrow
    split at hrow
    · rename_i hc
      cases hrow
      exact ⟨hc, rfl⟩
    · simp at hrow
  refine ⟨?_, ⟨?_, ?_, ?_, ?_, ?_⟩, fun i e he => ?_, fun c row hrow => ?_⟩
  · have hroot : Database.initializeRoot x.toExternals {}
        (x.commitHash ⟨none, none, hash, x.hash schemaBlob, rootMetadata⟩) =
        .ok { layers, commits := (∅ : ExtTreeMap HashId (Storage.CommitRow HashId)).insert
                (x.commitHash ⟨none, none, hash, x.hash schemaBlob, rootMetadata⟩)
                ⟨none, none, id⟩ } := bind_eq_ok.mpr ⟨_, hpersist, rfl⟩
    have hsound := Database.sound_root hroot
    unfold database
    convert hsound using 2
    refine ExtTreeMap.ext_getElem? fun c => ?_
    rw [ExtTreeMap.getElem?_map, lookup_insert, lookup_insert]
    split
    · rfl
    · simp
  · intro c row hrow p hp
    obtain ⟨full, hfull, rfl⟩ := store_row hrow
    obtain ⟨_, rfl⟩ := honly hfull
    cases hp
  · intro name c hb
    have hb' : ((∅ : ExtTreeMap Text HashId).insert "main".toList _)[name]? = some c := hb
    rw [lookup_insert] at hb'
    split at hb'
    · cases hb'
      refine stored_iff.mpr ⟨⟨none, none, id, x.hash schemaBlob, rootMetadata⟩, ?_⟩
      rw [lookup_insert, if_pos rfl]
    · simp at hb'
  · intro name c ht
    have ht' : (∅ : ExtTreeMap Text HashId)[name]? = some c := ht
    simp at ht'
  · intro id record hs
    have hs' : (∅ : ExtTreeMap Text MergeSessionRecord)[id]? = some record := hs
    simp at hs'
  · intro id conflict t ht
    have ht' : (∅ : ExtTreeMap (Text × HashId) Text)[(id, conflict)]? = some t := ht
    simp at ht'
  · rcases hcase with ⟨_, hentry, _⟩ | ⟨_, hid, _, _, rfl⟩
    · simp at hentry
    · rw [lookup_insert] at he
      split at he
      · rename_i hi
        refine ⟨x.commitHash ⟨none, none, hash, x.hash schemaBlob, rootMetadata⟩,
          ⟨none, none, id, x.hash schemaBlob, rootMetadata⟩, ?_, hi.symm⟩
        rw [lookup_insert, if_pos rfl]
      · simp at he
  · obtain ⟨_, rfl⟩ := honly hrow
    refine ⟨schemaBlob, ?_⟩
    rw [lookup_insert, if_pos rfl]

/-- **Over every run the two sides fit together.** -/
theorem linked_reaches (h : Reaches x r) : Linked x r := by
  obtain ⟨hfresh, hrun⟩ := h
  exact trace_inv (Linked x) (fun _ _ _ hl hstep => linked_step hl hstep) hrun (linked_fresh hfresh)

end Runs

/-! ## 2. Garbage collection over runs -/

/-- **Garbage collection is safe**: what it leaves of the repository, and that a second run finds
    nothing. -/
structure CollectionSafe (x : Hashing) (r r' : Repository) : Prop where
  references : r'.branches = r.branches ∧ r'.tags = r.tags ∧ r'.sessions = r.sessions ∧
    r'.resolutions = r.resolutions
  /-- Branches, tags and sessions name commits that are there, with all their parents. -/
  resolves : Coherent r'.store
  /-- A live commit has the row, the layer, the schema and the checkpoint it had, and is loaded as
      the same graph. -/
  kept : ∀ c, r.Live c → ∃ row layer blob, r.commits[c]? = some row ∧ r'.commits[c]? = some row ∧
    r.layers.layers[row.layerId]? = some layer ∧ r'.layers.layers[row.layerId]? = some layer ∧
    r.schemas[row.schemaHash]? = some blob ∧ r'.schemas[row.schemaHash]? = some blob ∧
    r'.checkpoints[c]? = r.checkpoints[c]? ∧ r'.commitData[c]? = r.commitData[c]? ∧
    ∀ skip, ∃ s s', r.database.resolveState x.toExternals c skip = .ok s ∧
      r'.database.resolveState x.toExternals c skip = .ok s' ∧
      s.snapshot.graph = s'.snapshot.graph
  /-- A commit that is left refers to nothing that is gone. -/
  whole : ∀ (c : HashId) (row : PersistedCommitRow), r'.commits[c]? = some row →
    (∀ p ∈ row.parents, ∃ row', r'.commits[p]? = some row') ∧
      (∃ layer, r'.layers.layers[row.layerId]? = some layer) ∧
      (∃ blob, r'.schemas[row.schemaHash]? = some blob) ∧
      r'.checkpoints[c]? = r.checkpoints[c]?
  /-- A layer or checkpoint that is left belongs to a commit that is left. -/
  used : (∀ (id : Int) layer, r'.layers.layers[id]? = some layer →
      ∃ (c : HashId) (row : PersistedCommitRow), r'.commits[c]? = some row ∧ row.layerId = id) ∧
    ∀ (c : HashId) cp, r'.checkpoints[c]? = some cp → ∃ row, r'.commits[c]? = some row
  again : collectGarbage r' = .ok {} r'

section Safety

variable {x : Hashing} {r r' : Repository}

theorem Swept.keeps (hl : Linked x r) (h : Swept r r') {c : HashId} (hlive : r.Live c) :
    ∃ row, r.commits[c]? = some row ∧ r'.commits[c]? = some row ∧
      r'.checkpoints[c]? = r.checkpoints[c]? ∧ r'.commitData[c]? = r.commitData[c]? := by
  obtain ⟨row, hrow⟩ := hlive.stored hl.coherent
  refine ⟨row, hrow, (h.commits c row).mpr ⟨hrow, hlive⟩, ?_, h.data c hlive⟩
  have hsame : ∀ cp, r'.checkpoints[c]? = some cp ↔ r.checkpoints[c]? = some cp := by
    intro cp
    rw [h.checkpoints c cp]
    exact and_iff_left hlive
  exact Option.ext hsame

/-- **In every repository a run reaches, garbage collection is safe.** -/
theorem collectGarbage_safe (hr : Reaches x r) :
    ∃ counters r', collectGarbage r = .ok counters r' ∧ CollectionSafe x r r' := by
  have hl := linked_reaches hr
  obtain ⟨counters, r', hgc, h⟩ := collectGarbage_swept hl
  have hl' := linked_swept hl h
  refine ⟨counters, r', hgc, ⟨?_, hl'.coherent, fun c hlive => ?_, fun c row hrow => ?_,
    ⟨hl'.layers, fun c cp hcp => hl'.checkpoint hcp⟩, collectGarbage_again hl h⟩⟩
  · rw [h.rest]
    exact ⟨rfl, rfl, rfl, rfl⟩
  · obtain ⟨row, hrow, hrow', hcheckpoints, hdata⟩ := h.keeps hl hlive
    obtain ⟨layer, hlayer⟩ := hl.layer hrow
    obtain ⟨blob, hblob⟩ := hl.schemas c row hrow
    refine ⟨row, layer, blob, hrow, hrow', hlayer, (h.layers _ layer).mpr ⟨hlayer, c, row, hrow', rfl⟩,
      hblob, h.kept c row blob hrow' hblob, hcheckpoints, hdata, fun skip => ?_⟩
    obtain ⟨s, s', hs, hs', hgraph, _⟩ :=
      (h.part hl).resolve hl.sound (database_row_of hrow') skip skip
    exact ⟨s, s', hs, hs', hgraph⟩
  · obtain ⟨_, _, _, hcheckpoints, _⟩ := h.keeps hl ((h.commits c row).mp hrow).2
    refine ⟨fun p hp => ?_, hl'.layer hrow, hl'.schemas c row hrow, hcheckpoints⟩
    exact stored_iff.mp (hl'.coherent.parents c _ (store_row_of hrow) p hp)

end Safety

/-- A commit is named by one more byte than its first parent, a layer by its bytes. -/
def byDepth : Hashing :=
  ⟨⟨id, fun _ => "", exactColumn⟩, fun record => 1 :: record.parent1.getD []⟩

/-- The repository after a call. -/
def after (ops : List Op) (r : Repository) : Repository := (savepoint (execAll byDepth ops) r).2

/-- A repository with its root and the branch `main`. -/
def fresh : Repository :=
  match initializeRoot byDepth [] ⟨none, none, 0⟩ with
  | .ok r => r
  | .error _ => {}

/-- Node 1 is allocated. -/
def firstNode : Allocation where
  run := fun ids => { ids with nextNode := max ids.nextNode 2 }
  grows := fun _ => ⟨Int.le_max_left _ _, Int.le_refl _, fun _ h => h, fun _ h => h, fun _ h => h⟩

theorem firstNode_built : (LayerBuilder.ofNode 1 true).Built :=
  newNode_built (by decide) (show LayerBuilder.supply [.addNode 1] = _ from rfl)

/-- A commit of node 1 on a branch that stands at the root. -/
def nodeCommit (branch : Text) : CommitInput :=
  ⟨branch, [1], none, ⟨LayerBuilder.ofNode 1 true, firstNode_built⟩, ⟨none, none, 0⟩, fun _ => .ok ()⟩

/-- A branch got a commit and was deleted. -/
def abandoned : Repository :=
  after [.branchDelete "main".toList "dev".toList]
    (after [.allocate firstNode, .commit (nodeCommit "dev".toList)]
      (after [.branchCreate "dev".toList [1]] fresh))

theorem after_reaches {r : Repository} (h : Reaches byDepth r) (ops : List Op) :
    Reaches byDepth (after ops r) := by
  obtain ⟨hfresh, hrun⟩ := h
  have hstep : Step byDepth r (ops, (savepoint (execAll byDepth ops) r).1) (after ops r) := rfl
  exact ⟨hfresh, trace_snoc hrun hstep⟩

theorem fresh_reached : Reaches byDepth fresh :=
  ⟨(show initializeRoot byDepth [] ⟨none, none, 0⟩ = .ok fresh from rfl), .nil fresh⟩

theorem abandoned_reached : Reaches byDepth abandoned :=
  after_reaches (after_reaches (after_reaches fresh_reached _) _) _

theorem collectGarbage_safe_abandoned : (∃ counters r', collectGarbage abandoned = .ok counters r' ∧
    CollectionSafe byDepth abandoned r') ∧
      (savepoint collectGarbage abandoned).1 = .ok { commits := 1, layers := 1 } :=
  ⟨collectGarbage_safe abandoned_reached, by decide +kernel⟩

end Lithograph.Version.Repository
