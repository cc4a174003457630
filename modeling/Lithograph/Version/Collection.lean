/-
  File:      Lithograph/Version/Collection.lean
  Subject:   What garbage collection leaves of a repository (`storage/version/gc.rs`).

  A commit is live if a branch, a tag or an open merge session names it or a descendant of it.

  * `linked_swept`: what it leaves fits together again.
-/
import Lithograph.Version.Repository

namespace Lithograph.Version.Repository

open Std Library Storage

/-! ## 1. Live commits -/

/-- A commit some reference or open merge session needs, with all its ancestors. -/
def Live (r : Repository) (c : HashId) : Prop :=
  ∃ root ∈ gcRoots r.store, Relation.ReflTransGen
    (fun a b => ∃ row, r.commits[a]? = some row ∧ b ∈ row.parents) root c

/-- **What garbage collection leaves**: the live commits with their checkpoints, data and layers,
    and all that is not about commits. -/
structure Swept (r r' : Repository) : Prop where
  rest : r' = { r with layers := { r.layers with layers := r'.layers.layers }
                       schemas := r'.schemas, commits := r'.commits
                       checkpoints := r'.checkpoints, commitData := r'.commitData }
  commits : ∀ (c : HashId) (row : PersistedCommitRow),
    r'.commits[c]? = some row ↔ r.commits[c]? = some row ∧ r.Live c
  checkpoints : ∀ (c : HashId) (cp : CheckpointRows),
    r'.checkpoints[c]? = some cp ↔ r.checkpoints[c]? = some cp ∧ r.Live c
  data : ∀ c : HashId, r.Live c → r'.commitData[c]? = r.commitData[c]?
  layers : ∀ (id : Int) e, r'.layers.layers[id]? = some e ↔ r.layers.layers[id]? = some e ∧
    ∃ (c : HashId) (row : PersistedCommitRow), r'.commits[c]? = some row ∧ row.layerId = id
  schemas : ∀ (hash : HashId) (blob : Bytes), r'.schemas[hash]? = some blob →
    r.schemas[hash]? = some blob
  kept : ∀ (c : HashId) (row : PersistedCommitRow) (blob : Bytes), r'.commits[c]? = some row →
    r.schemas[row.schemaHash]? = some blob → r'.schemas[row.schemaHash]? = some blob

variable {c : HashId}

section Collection

variable {x : Hashing} {r r' : Repository}

theorem deleteCommits_eq : ∀ (dead : List HashId) (counters : GcCounters) (r : Repository),
    (dead.foldl deleteCommit (counters, r)).2 =
      { r with commitData := dead.foldl ExtTreeMap.erase r.commitData
               checkpoints := dead.foldl ExtTreeMap.erase r.checkpoints
               commits := dead.foldl ExtTreeMap.erase r.commits }
  | [], _, _ => rfl
  | c :: dead, counters, r => by
    unfold deleteCommit
    exact deleteCommits_eq dead _ _

theorem deleteLayers_eq : ∀ (ids : List Int) (counters : GcCounters) (r : Repository),
    (ids.foldl deleteLayer (counters, r)).2 =
      { r with layers := { r.layers with layers := ids.foldl ExtTreeMap.erase r.layers.layers } }
  | [], _, _ => rfl
  | id :: ids, counters, r => by
    unfold deleteLayer
    exact deleteLayers_eq ids _ _

theorem layerReferenced_iff {id : Int} : r.layerReferenced id = true ↔
    ∃ (c : HashId) (row : PersistedCommitRow), r.commits[c]? = some row ∧ row.layerId = id := by
  unfold layerReferenced
  rw [List.any_eq_true]
  constructor
  · rintro ⟨e, hmem, hid⟩
    exact ⟨e.1, e.2, lookup_of_mem hmem, of_decide_eq_true hid⟩
  · rintro ⟨c, row, hrow, hid⟩
    exact ⟨(c, row), mem_of_lookup hrow, decide_eq_true hid⟩

variable {row : PersistedCommitRow}

theorem schemaReferenced_of {c : HashId}
    (h : r.commits[c]? = some row) : r.schemaReferenced row.schemaHash = true := by
  unfold schemaReferenced
  rw [List.any_eq_true]
  exact ⟨(c, row), mem_of_lookup h, decide_eq_true rfl⟩

theorem nextCommits_store (h : r.commits[c]? = some row) :
    nextCommits r.store.commits c = .ok row.parents.reverse := by
  unfold nextCommits loadCommit
  rw [store_row_of h]
  rfl

theorem follows_store {a b : HashId} : Follows (nextCommits r.store.commits) a b ↔
    ∃ row, r.commits[a]? = some row ∧ b ∈ row.parents := by
  constructor
  · rintro ⟨next, hnext, hb⟩
    obtain ⟨record, hrecord, rfl⟩ := nextCommits_ok hnext
    obtain ⟨row, hrow, rfl⟩ := store_row hrecord
    exact ⟨row, hrow, List.mem_reverse.mp hb⟩
  · rintro ⟨row, hrow, hb⟩
    exact ⟨_, nextCommits_store hrow, List.mem_reverse.mpr hb⟩

theorem root_stored (hc : Coherent r.store) {root : HashId} (h : root ∈ gcRoots r.store) :
    ∃ row, r.commits[root]? = some row := by
  refine stored_iff.mp ?_
  unfold gcRoots at h
  simp only [List.mem_append, List.mem_map] at h
  rcases h with (⟨e, he, rfl⟩ | ⟨e, he, rfl⟩) | ⟨e, he, rfl⟩ | ⟨e, he, rfl⟩
  · exact hc.branches e.1 e.2 (lookup_of_mem he)
  · exact hc.tags e.1 e.2 (lookup_of_mem he)
  · exact (hc.pins e.1 e.2 (lookup_of_mem he)).1
  · exact (hc.pins e.1 e.2 (lookup_of_mem he)).2

theorem Live.stored (hc : Coherent r.store) {c : HashId} (h : r.Live c) :
    ∃ row, r.commits[c]? = some row := by
  obtain ⟨root, hroot, hreach⟩ := h
  induction hreach with
  | refl => exact root_stored hc hroot
  | @tail a b _ hstep _ =>
    obtain ⟨row, hrow, hb⟩ := hstep
    exact stored_iff.mp (hc.parents a _ (store_row_of hrow) b hb)

theorem Live.parent {p : HashId} (h : r.Live c)
    (hrow : r.commits[c]? = some row) (hp : p ∈ row.parents) : r.Live p := by
  obtain ⟨root, hroot, hreach⟩ := h
  exact ⟨root, hroot, hreach.tail ⟨row, hrow, hp⟩⟩

/-- **The walk finds exactly the commits that are not live.** -/
theorem unreachableCommits_ok (hc : Coherent r.store) :
    ∃ dead, unreachableCommits r.store = .ok dead ∧
      ∀ c, c ∈ dead ↔ (∃ row, r.commits[c]? = some row) ∧ ¬ r.Live c := by
  have hroots : ∀ c ∈ (gcRoots r.store).reverse, ∃ row, r.commits[c]? = some row :=
    fun c hmem => root_stored hc (List.mem_reverse.mp hmem)
  have hnext : ∀ c, (∃ row, r.commits[c]? = some row) →
      ∃ next, nextCommits r.store.commits c = .ok next ∧
        ∀ b ∈ next, ∃ row, r.commits[b]? = some row := by
    rintro c ⟨row, hrow⟩
    refine ⟨_, nextCommits_store hrow, fun b hb => ?_⟩
    exact stored_iff.mp (hc.parents c _ (store_row_of hrow) b (List.mem_reverse.mp hb))
  have hends : ∃ found, reachableCommits r.store.commits (gcRoots r.store) = .ok found :=
    closure_defined hnext hroots
  obtain ⟨found, hfound⟩ := hends
  cases found with
  | none => exact absurd hfound (reachableCommits_total _ _)
  | some reachable =>
    have hlive : ∀ c, c ∈ reachable ↔ r.Live c := by
      intro c
      rw [mem_closure_iff hfound c]
      have hsame : Follows (nextCommits r.store.commits) =
          fun a b => ∃ row, r.commits[a]? = some row ∧ b ∈ row.parents := by
        funext a b
        exact propext follows_store
      rw [hsame]
      simp only [List.mem_reverse]
      rfl
    refine ⟨r.store.commits.keys.filter fun c => c ∉ reachable, ?_, fun c => ?_⟩
    · unfold unreachableCommits
      rw [hfound]
      rfl
    · rw [List.mem_filter, ExtTreeMap.mem_keys, ExtTreeMap.mem_iff_isSome_getElem?,
        Option.isSome_iff_exists, decide_eq_true_iff, hlive]
      exact and_congr_left fun _ => stored_iff

theorem sweep_swept {dead : List HashId}
    (hdead : ∀ c, c ∈ dead ↔ (∃ row, r.commits[c]? = some row) ∧ ¬ r.Live c)
    (hcheckpoints : ∀ (c : HashId) cp, r.checkpoints[c]? = some cp →
      ∃ row, r.commits[c]? = some row) : Swept r (r.sweep dead).2 := by
  have hcommits : ∀ (c : HashId) (row : PersistedCommitRow),
      (dead.foldl ExtTreeMap.erase r.commits)[c]? = some row ↔
        r.commits[c]? = some row ∧ r.Live c := by
    intro c row
    rw [getElem?_foldl_erase]
    constructor
    · intro h
      split at h
      · cases h
      · rename_i hc
        exact ⟨h, Classical.byContradiction fun hn => hc ((hdead c).mpr ⟨⟨row, h⟩, hn⟩)⟩
    · rintro ⟨hrow, hlive⟩
      rw [if_neg fun hc => ((hdead c).mp hc).2 hlive]
      exact hrow
  let swept : Repository := (dead.foldl deleteCommit (({} : GcCounters), r)).2
  have hswept : swept = { r with commitData := dead.foldl ExtTreeMap.erase r.commitData
                                 checkpoints := dead.foldl ExtTreeMap.erase r.checkpoints
                                 commits := dead.foldl ExtTreeMap.erase r.commits } :=
    deleteCommits_eq dead _ r
  have hresult : (r.sweep dead).2 = { swept with
      layers := { r.layers with
        layers := swept.orphanLayerIds.foldl ExtTreeMap.erase r.layers.layers }
      schemas := r.schemas.filter fun hash _ => swept.schemaReferenced hash } := by
    show (deleteOrphanSchemas (swept.orphanLayerIds.foldl deleteLayer (_, swept))).2 = _
    unfold deleteOrphanSchemas
    simp only [deleteLayers_eq]
    rw [hswept]
    rfl
  rw [hresult, hswept]
  refine ⟨rfl, hcommits, fun c cp => ?_, fun c hlive => ?_, fun id e => ?_, fun hash blob h => ?_,
    fun c row blob hrow hblob => ?_⟩
  · show (dead.foldl ExtTreeMap.erase r.checkpoints)[c]? = some cp ↔ _
    rw [getElem?_foldl_erase]
    constructor
    · intro h
      split at h
      · cases h
      · rename_i hc
        exact ⟨h, Classical.byContradiction fun hn =>
          hc ((hdead c).mpr ⟨hcheckpoints c cp h, hn⟩)⟩
    · rintro ⟨hcp, hlive⟩
      rw [if_neg fun hc => ((hdead c).mp hc).2 hlive]
      exact hcp
  · show (dead.foldl ExtTreeMap.erase r.commitData)[c]? = _
    rw [getElem?_foldl_erase, if_neg fun hc => ((hdead c).mp hc).2 hlive]
  · rw [← hswept]
    show (swept.orphanLayerIds.foldl ExtTreeMap.erase r.layers.layers)[id]? = some e ↔
      r.layers.layers[id]? = some e ∧
        ∃ (c : HashId) (row : PersistedCommitRow), swept.commits[c]? = some row ∧ row.layerId = id
    rw [getElem?_foldl_erase, ← layerReferenced_iff]
    have horphan : ∀ {e : HashId × LayerRows}, r.layers.layers[id]? = some e →
        (id ∈ swept.orphanLayerIds ↔ ¬ swept.layerReferenced id = true) := by
      intro e he
      have hkey : id ∈ swept.layers.layers.keys := by
        rw [ExtTreeMap.mem_keys, ExtTreeMap.mem_iff_isSome_getElem?, hswept]
        exact Option.isSome_of_eq_some he
      unfold orphanLayerIds
      simp [hkey]
    constructor
    · intro h
      split at h
      · cases h
      · rename_i hn
        exact ⟨h, not_not.mp fun hr => hn ((horphan h).mpr hr)⟩
    · rintro ⟨he, hr⟩
      rw [if_neg fun hn => ((horphan he).mp hn) hr]
      exact he
  · rw [← hswept] at h
    have h' : (r.schemas.filter fun hash _ => swept.schemaReferenced hash)[hash]? = some blob := h
    rw [ExtTreeMap.getElem?_filter'] at h'
    exact (Option.filter_eq_some_iff.mp h').1
  · rw [← hswept]
    have href : swept.schemaReferenced row.schemaHash = true := by
      refine schemaReferenced_of (c := c) ?_
      rw [hswept]
      exact hrow
    show (r.schemas.filter fun hash _ => swept.schemaReferenced hash)[row.schemaHash]? = _
    rw [ExtTreeMap.getElem?_filter', hblob]
    exact Option.filter_eq_some_iff.mpr ⟨rfl, href⟩

theorem Linked.checkpoint (hl : Linked x r) {c : HashId} {cp : CheckpointRows}
    (h : r.checkpoints[c]? = some cp) : ∃ row, r.commits[c]? = some row := by
  obtain ⟨ls, hls, _⟩ := hl.sound.checkpoints c cp h
  have hcommit := hls.commit
  rw [ExtTreeMap.mem_keys, ExtTreeMap.mem_iff_isSome_getElem?] at hcommit
  obtain ⟨row, hrow⟩ := Option.isSome_iff_exists.mp hcommit
  obtain ⟨full, hfull, _⟩ := database_row hrow
  exact ⟨full, hfull⟩

/-- **`collect_garbage` succeeds and leaves what is live.** -/
theorem collectGarbage_swept (hl : Linked x r) :
    ∃ counters r', collectGarbage r = .ok counters r' ∧ Swept r r' := by
  obtain ⟨dead, hdead, hmem⟩ := unreachableCommits_ok hl.coherent
  unfold collectGarbage
  rw [hdead]
  cases dead with
  | nil =>
    -- nothing is dead, so nothing is without a commit
    have hlive :
        ∀ (c : HashId) (row : PersistedCommitRow), r.commits[c]? = some row → r.Live c := by
      intro c row hrow
      refine Classical.byContradiction fun hn => ?_
      exact absurd ((hmem c).mpr ⟨⟨row, hrow⟩, hn⟩) List.not_mem_nil
    refine ⟨{}, r, rfl, rfl, fun c row => ?_, fun c cp => ?_, fun _ _ => rfl, fun id e => ?_,
      fun _ _ h => h, fun _ _ _ _ h => h⟩
    · exact ⟨fun h => ⟨h, hlive c row h⟩, fun h => h.1⟩
    · refine ⟨fun h => ⟨h, ?_⟩, fun h => h.1⟩
      obtain ⟨row, hrow⟩ := hl.checkpoint h
      exact hlive c row hrow
    · exact ⟨fun h => ⟨h, hl.layers id e h⟩, fun h => h.1⟩
  | cons c dead =>
    exact ⟨_, _, rfl, sweep_swept hmem fun _ _ h => hl.checkpoint h⟩

theorem Swept.part (hl : Linked x r) (h : Swept r r') : Database.Part r.database r'.database := by
  have hrest := h.rest
  refine ⟨by rw [hrest]; rfl, by rw [hrest]; rfl, fun c row hrow => ?_,
    fun id e he => ((h.layers id e).mp he).1, fun c cp hcp => ?_,
    fun c row p row' hrow hparent hp => ?_, fun c row e hrow he => ?_⟩
  · obtain ⟨full, hfull, rfl⟩ := database_row hrow
    exact database_row_of ((h.commits c full).mp hfull).1
  · obtain ⟨hold, hlive⟩ := (h.checkpoints c cp).mp hcp
    obtain ⟨full, hfull⟩ := hl.checkpoint hold
    exact ⟨hold, _, database_row_of ((h.commits c full).mpr ⟨hfull, hlive⟩)⟩
  · obtain ⟨full, hfull, rfl⟩ := database_row hrow
    obtain ⟨full', hfull', rfl⟩ := database_row hp
    obtain ⟨hold, hlive⟩ := (h.commits c full).mp hfull
    have hmem : p ∈ full.parents := by
      have hparent' : full.parent1 = some p := hparent
      unfold PersistedCommitRow.parents
      rw [hparent']
      exact .head _
    exact database_row_of ((h.commits p full').mpr ⟨hfull', hlive.parent hold hmem⟩)
  · obtain ⟨full, hfull, rfl⟩ := database_row hrow
    exact (h.layers _ e).mpr ⟨he, c, full, hfull, rfl⟩

theorem Swept.collected (hl : Linked x r) (h : Swept r r') : Collected r.store r'.store := by
  have hrecord : ∀ {c : HashId} {row : PersistedCommitRow}, r'.commits[c]? = some row →
      r'.record row = r.record row := by
    intro c row hrow
    obtain ⟨e, he⟩ := hl.layer ((h.commits c row).mp hrow).1
    unfold record layerHash
    rw [he, (h.layers _ e).mpr ⟨he, c, row, hrow, rfl⟩]
  have hkeeps : ∀ {c : HashId} {row : CommitRecord}, r.store.commits[c]? = some row → r.Live c →
      r'.store.commits[c]? = some row := by
    intro c row hrow hlive
    obtain ⟨full, hfull, rfl⟩ := store_row hrow
    have hfull' := (h.commits c full).mpr ⟨hfull, hlive⟩
    rw [store_row_of hfull', hrecord hfull']
  refine ⟨?_, fun c row hrow => ?_, fun c hc row hrow => ?_, fun c row p hrow hp row' hp' => ?_⟩
  · rw [h.rest]
    rfl
  · obtain ⟨full, hfull, rfl⟩ := store_row hrow
    rw [hrecord hfull]
    exact store_row_of ((h.commits c full).mp hfull).1
  · exact hkeeps hrow ⟨c, hc, .refl⟩
  · obtain ⟨full, hfull, rfl⟩ := store_row hrow
    obtain ⟨hold, hlive⟩ := (h.commits c full).mp hfull
    exact hkeeps hp' (hlive.parent hold hp)

/-- **Garbage collection keeps the sides together.** -/
theorem linked_swept (hl : Linked x r) (h : Swept r r') : Linked x r' := by
  refine ⟨Database.sound_part hl.sound (h.part hl), coherent_collected hl.coherent (h.collected hl),
    fun id e he => ((h.layers id e).mp he).2, fun c row hrow => ?_⟩
  obtain ⟨blob, hblob⟩ := hl.schemas c row ((h.commits c row).mp hrow).1
  exact ⟨blob, h.kept c row blob hrow hblob⟩

theorem Swept.live (h : Swept r r') (hlive : r.Live c) : r'.Live c := by
  have hroots : gcRoots r'.store = gcRoots r.store := by
    rw [h.rest]
    rfl
  obtain ⟨root, hroot, hreach⟩ := hlive
  refine ⟨root, by rw [hroots]; exact hroot, ?_⟩
  induction hreach with
  | refl => exact .refl
  | @tail a b hpath hstep ih =>
    obtain ⟨row, hrow, hb⟩ := hstep
    exact ih.tail ⟨row, (h.commits a row).mpr ⟨hrow, root, hroot, hpath⟩, hb⟩

/-- **Garbage collection leaves itself nothing to do.** -/
theorem collectGarbage_again (hl : Linked x r) (h : Swept r r') :
    collectGarbage r' = .ok {} r' := by
  obtain ⟨dead, hdead, hmem⟩ := unreachableCommits_ok (linked_swept hl h).coherent
  have hnone : dead = [] := by
    refine List.eq_nil_iff_forall_not_mem.mpr fun c hc => ?_
    obtain ⟨⟨row, hrow⟩, hnot⟩ := (hmem c).mp hc
    exact hnot (h.live ((h.commits c row).mp hrow).2)
  unfold collectGarbage
  rw [hdead, hnone]

end Collection

end Lithograph.Version.Repository
