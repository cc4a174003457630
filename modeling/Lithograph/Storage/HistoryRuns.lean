/-
  File:      Lithograph/Storage/HistoryRuns.lean
  Subject:   What holds of every database a run reaches: commits, checkpoints and their snapshots
             (`storage/commit.rs`, `storage/checkpoint.rs`, `storage/snapshot.rs`).

  * `invariantsKept`: an accepted layer keeps the invariants of a graph, and so does every run.
-/
import Lithograph.Storage.Answers
import Lithograph.Storage.History

namespace Lithograph.Storage

open Std Library

/-! ## 1. Layers in canonical form -/

theorem LayerBuilder.Built.formed {l : LayerBuilder} (h : l.Built) : l.Formed := by
  refine ⟨fun row op hop => (h.labels row op hop).2.1,
    fun rel delta hdelta => (h.relationships rel delta hdelta).1,
    fun slot delta hdelta => (h.properties slot delta hdelta).2.1.1, fun slot delta hdelta => ?_⟩
  rcases (h.properties slot delta hdelta).2.2 with ⟨hop, v, hv, _⟩ | ⟨hop, hv⟩
  · simp [hop, hv]
  · simp [hop, hv]

variable {g : GraphState} {l layer : LayerBuilder} {ids : Identities}

theorem GraphState.property_canonical {slot : PropertySlot} {value : PropertyValue}
    (h : (g.apply l.canonical).properties[slot]? = some value) :
    ∃ value, (g.apply l).properties[slot]? = some value := by
  have hcanonical : l.canonical.properties[slot]? =
      l.properties[slot]?.map PropertyDelta.canonical := ExtTreeMap.getElem?_map
  rw [GraphState.properties_apply, hcanonical] at h
  rw [GraphState.properties_apply]
  cases hd : l.properties[slot]? with
  | none =>
    rw [hd] at h
    exact ⟨value, h⟩
  | some delta =>
    rw [hd] at h
    obtain ⟨v, hv, _⟩ := Option.map_eq_some_iff.mp
      (show delta.value.map PropertyValue.canonical = some value from h)
    exact ⟨v, hv⟩

theorem consistent_canonical (h : (g.apply l).Consistent) : (g.apply l.canonical).Consistent where
  labels := h.labels
  endpoints := h.endpoints
  owners slot value hvalue := by
    obtain ⟨value, hvalue⟩ := GraphState.property_canonical hvalue
    exact h.owners slot value hvalue

theorem known_canonical {tuples : RelationshipTuples} (h : (g.apply l).Known ids tuples) :
    (g.apply l.canonical).Known ids tuples where
  nodes := h.nodes
  labels := h.labels
  relationships := h.relationships
  properties slot value hvalue := by
    obtain ⟨value, hvalue⟩ := GraphState.property_canonical hvalue
    exact h.properties slot value hvalue

namespace Database

variable {H : Type} [Ord H] [TransOrd H] [LawfulEqOrd H] [DecidableEq H] {x : Externals H}

/-! ## 2. The invariant -/

/-- **What every run keeps.** -/
structure Sound (x : Externals H) (db : Database H) : Prop where
  layers : LayerTable.Safe x.hash x.real db.layers
  commits : ∀ (c : H) row, db.commits[c]? = some row → ∃ ls, Lineage x db c ls ∧
    (graphOf ls).Consistent ∧ (graphOf ls).Known db.ids db.tuples
  checkpoints : CheckpointsShow x db
  stable : TuplesStable db.tuples

/-- Commits and layers stay as they are. -/
structure Extends (db db' : Database H) : Prop where
  commits : ∀ (c : H) row, db.commits[c]? = some row → db'.commits[c]? = some row
  layers : ∀ (id : Int) e, db.layers.layers[id]? = some e → db'.layers.layers[id]? = some e

omit [LawfulEqOrd H] [DecidableEq H] in
theorem Extends.trans {db db' db'' : Database H} (h : Extends db db') (h' : Extends db' db'') :
    Extends db db'' :=
  ⟨fun c row hrow => h'.commits c row (h.commits c row hrow),
    fun id e he => h'.layers id e (h.layers id e he)⟩

variable {db db' : Database H}

omit [LawfulEqOrd H] [DecidableEq H] in
theorem Extends.lineage (he : Extends db db') {c : H}
    {ls : List LayerBuilder} (h : Lineage x db c ls) : Lineage x db' c ls := by
  have hstores : ∀ {id : Int} {l : LayerBuilder}, db.Stores x id l → db'.Stores x id l := by
    rintro id l ⟨rows, built, bytes, hentry, hrest⟩
    exact ⟨rows, built, bytes, he.layers id _ hentry, hrest⟩
  induction h with
  | root hrow hparent hl => exact .root (he.commits _ _ hrow) hparent (hstores hl)
  | child hrow hparent hl _ ih => exact .child (he.commits _ _ hrow) hparent (hstores hl) ih

omit [LawfulEqOrd H] [DecidableEq H] in
theorem Extends.tuples (he : Extends db db') {record : RelationshipRecord}
    (h : record ∈ db.tuples) : record ∈ db'.tuples := by
  obtain ⟨e, hentry, hrecord⟩ := List.mem_flatMap.mp h
  exact List.mem_flatMap.mpr ⟨e,
    mem_of_lookup (he.layers e.1 e.2 (lookup_of_mem hentry)), hrecord⟩

variable {tuples tuples' : RelationshipTuples}

theorem known_mono {ids' : Identities}
    (h : g.Known ids tuples) (hids : Grows ids ids') (ht : ∀ record ∈ tuples, record ∈ tuples') :
    g.Known ids' tuples' where
  nodes id hid := ⟨(h.nodes id hid).1, Int.lt_of_lt_of_le (h.nodes id hid).2 hids.nextNode⟩
  labels row hrow := hids.labels _ (h.labels row hrow)
  relationships id record hrecord := by
    obtain ⟨hid, hpos, hlt, htype, hmem⟩ := h.relationships id record hrecord
    exact ⟨hid, hpos, Int.lt_of_lt_of_le hlt hids.nextRelationship,
      hids.relationshipTypes _ htype, ht record hmem⟩
  properties slot value hvalue := hids.propertyKeys _ (h.properties slot value hvalue)

theorem grows_refl (ids : Identities) : Grows ids ids :=
  ⟨Int.le_refl _, Int.le_refl _, fun _ h => h, fun _ h => h, fun _ h => h⟩

variable {row : CommitRow H}

theorem Sound.resolve {db : Database H} (hs : Sound x db) {c : H}
    (hrow : db.commits[c]? = some row) (skip : Option H) :
    ∃ s ls, db.resolveState x c skip = .ok s ∧ Lineage x db c ls ∧
      s.snapshot.graph = graphOf ls ∧ s.Valid db.tuples ∧ (graphOf ls).Known db.ids db.tuples ∧
      (db.checkpoints = ∅ → s.checkpoint = none) := by
  obtain ⟨ls, hls, hconsistent, hknown⟩ := hs.commits c row hrow
  have hrecords : ∀ {c : H} {ls : List LayerBuilder}, Lineage x db c ls →
      ∀ (id : RelationshipId) record, (graphOf ls).relationships[id]? = some record →
        record.id = id ∧ record ∈ db.tuples := by
    intro c ls hls id record hrecord
    have hcommit := hls.commit
    rw [ExtTreeMap.mem_keys, ExtTreeMap.mem_iff_isSome_getElem?] at hcommit
    obtain ⟨row, hrow⟩ := Option.isSome_iff_exists.mp hcommit
    obtain ⟨ls', hls', _, hknown⟩ := hs.commits c row hrow
    rw [hls.unique hls'] at hrecord
    obtain ⟨hid, _, _, _, hmem⟩ := hknown.relationships id record hrecord
    exact ⟨hid, hmem⟩
  obtain ⟨s, hresolve, hgraph, hsound, hbase, hoverlay, hnone⟩ :=
    resolveState_ok hs.checkpoints hs.stable hrecords hls skip
  exact ⟨s, ls, hresolve, hls, hgraph, ⟨hsound, hbase, hoverlay, hgraph ▸ hconsistent⟩, hknown,
    hnone⟩

/-! ## 3. One change of the database -/

theorem layerBuilder_empty_built : LayerBuilder.Built {} := by
  refine ⟨⟨?_, ?_, ?_, ?_⟩, ?_⟩
  · intro id op h
    simp at h
  · intro row op h
    simp at h
  · intro id delta h
    simp at h
  · intro slot delta h
    simp at h
  · simp [LayerBuilder.slotCount]

theorem consistent_empty : GraphState.Consistent {} := by
  refine ⟨?_, ?_, ?_⟩
  · intro row h
    simp at h
  · intro id record h
    simp at h
  · intro slot value h
    simp at h

theorem known_empty {tuples : RelationshipTuples} : GraphState.Known {} ids tuples := by
  refine ⟨?_, ?_, ?_, ?_⟩
  · intro id h
    simp at h
  · intro row h
    simp at h
  · intro id record h
    simp at h
  · intro slot value h
    simp at h

omit [TransOrd H] [LawfulEqOrd H] [DecidableEq H] in
theorem mem_tuples_persisted {db : Database H} {layers : LayerTable H} {built : LayerBuilder}
    {rows : LayerRows} (hbuilt : built.Built) (hrows : LayerRows.ofLayer x.real built = .ok rows)
    (hcanonical : built.canonical = layer.canonical)
    (hnew : ∀ (j : Int) e, layers.layers[j]? = some e → db.layers.layers[j]? = some e ∨ e.2 = rows)
    {record : RelationshipRecord} (h : record ∈ ({ db with layers } : Database H).tuples) :
    record ∈ db.tuples ∨ ∃ (id : RelationshipId) (delta : RelationshipDelta),
      layer.relationships[id]? = some delta ∧ delta.record = record := by
  obtain ⟨e, hentry, hrecord⟩ := List.mem_flatMap.mp h
  rcases hnew e.1 e.2 (lookup_of_mem hentry) with hold | hrowsOf
  · exact Or.inl (List.mem_flatMap.mpr ⟨e, mem_of_lookup hold, hrecord⟩)
  · obtain ⟨row, hrow, rfl⟩ := List.mem_map.mp hrecord
    have hrow := lookup_of_mem hrow
    rw [hrowsOf, (LayerRows.ofLayer_ok hbuilt hrows).2.2.1, ExtTreeMap.getElem?_map] at hrow
    obtain ⟨delta, hdelta, hrow⟩ := Option.map_eq_some_iff.mp hrow
    have hsame : built.canonical.relationships = layer.canonical.relationships := by
      rw [hcanonical]
    have hrelationships : built.relationships = layer.relationships := hsame
    refine Or.inr ⟨row.1, delta, hrelationships ▸ hdelta, ?_⟩
    rw [← hrow]

theorem accepted_of_validated {db : Database H} (hs : Sound x db) {expectedHead : H}
    (hbuilt : layer.Built) (hhead : db.requireCommit x expectedHead = .ok ())
    (h : db.validateCandidateLayer x expectedHead layer = .ok ()) :
    ∃ ls, Lineage x db expectedHead ls ∧ (graphOf ls).Consistent ∧
      (graphOf ls).Known db.ids db.tuples ∧
      (layer = {} ∨ Accepted db.ids db.tuples (graphOf ls) layer) := by
  unfold requireCommit at hhead
  split at hhead
  · rename_i hcontains
    rw [ExtTreeMap.contains_eq_isSome_getElem?] at hcontains
    obtain ⟨row, hrow⟩ := Option.isSome_iff_exists.mp hcontains
    obtain ⟨s, ls, hresolve, hls, hgraph, hvalid, hknown, _⟩ := hs.resolve hrow none
    refine ⟨ls, hls, hgraph ▸ hvalid.consistent, hknown, ?_⟩
    unfold validateCandidateLayer at h
    split at h
    · rename_i hempty
      exact Or.inl (LayerBuilder.isEmpty_iff.mp hempty)
    · rw [hresolve, ok_bind] at h
      rw [← hgraph]
      exact Or.inr ((IndexedSnapshot.validateLayer_ok hvalid.sound hbuilt.formed
        fun _ _ hrecord => hvalid.graphRows hrecord).mp h)
  · cases hhead

theorem stable_accepted (hstable : TuplesStable tuples)
    (hformed : layer.Formed) (haccepted : layer = {} ∨ Accepted ids tuples g layer)
    (hrows : ∀ record ∈ tuples', record ∈ tuples ∨ ∃ (id : RelationshipId)
      (delta : RelationshipDelta), layer.relationships[id]? = some delta ∧ delta.record = record) :
    TuplesStable tuples' := by
  have hkept : ∀ (id : RelationshipId) delta, layer.relationships[id]? = some delta →
      ∀ record ∈ tuples, record.id = delta.record.id → record = delta.record := by
    intro id delta hdelta
    rcases haccepted with rfl | haccepted
    · simp at hdelta
    · exact (haccepted.relationships id delta hdelta).2.2.2.2
  intro record hrecord record' hrecord' hid
  rcases hrows record hrecord with hold | ⟨rel, delta, hdelta, rfl⟩
  · rcases hrows record' hrecord' with hold' | ⟨rel', delta', hdelta', rfl⟩
    · exact hstable record hold record' hold' hid
    · exact hkept rel' delta' hdelta' record hold hid
  · rcases hrows record' hrecord' with hold' | ⟨rel', delta', hdelta', rfl⟩
    · exact (hkept rel delta hdelta record' hold' hid.symm).symm
    · rw [hformed.keyed rel delta hdelta, hformed.keyed rel' delta' hdelta'] at hid
      rw [hid, hdelta'] at hdelta
      rw [Option.some.inj hdelta]

theorem kept_accepted (hconsistent : g.Consistent)
    (hknown : g.Known ids tuples) (hformed : layer.Formed)
    (haccepted : layer = {} ∨ Accepted ids tuples g layer)
    (hgrow : ∀ record ∈ tuples, record ∈ tuples')
    (hrows : ∀ (id : RelationshipId) delta, layer.relationships[id]? = some delta →
      delta.record ∈ tuples') :
    (g.apply layer.canonical).Consistent ∧ (g.apply layer.canonical).Known ids tuples' := by
  rcases haccepted with rfl | haccepted
  · exact ⟨hconsistent, known_mono hknown (grows_refl _) hgrow⟩
  · exact ⟨consistent_canonical (consistent_apply hconsistent hformed haccepted),
      known_canonical (known_apply hknown hformed haccepted hgrow hrows)⟩

omit [LawfulEqOrd H] in
theorem insertCommit_ok {commit : H} (h : insertCommit x db commit row = .ok db') :
    (db.commits[commit]? = none ∧ db' = { db with commits := db.commits.insert commit row }) ∨
      db' = db := by
  unfold insertCommit at h
  split at h
  · rename_i hfresh
    cases h
    exact Or.inl ⟨hfresh, rfl⟩
  · split at h
    · cases h
      exact Or.inr rfl
    · cases h

omit [LawfulEqOrd H] [DecidableEq H] in
theorem Sound.commits_extend (hs : Sound x db) (he : Extends db db')
    (hids : db'.ids = db.ids) {c : H} (hrow : db.commits[c]? = some row) :
    ∃ ls, Lineage x db' c ls ∧ (graphOf ls).Consistent ∧ (graphOf ls).Known db'.ids db'.tuples := by
  obtain ⟨ls, hls, hconsistent, hknown⟩ := hs.commits c row hrow
  refine ⟨ls, he.lineage hls, hconsistent, ?_⟩
  rw [hids]
  exact known_mono hknown (grows_refl _) fun _ => he.tuples

omit [LawfulEqOrd H] [DecidableEq H] in
theorem Sound.checkpoints_extend (hs : Sound x db) (he : Extends db db')
    (hsame : db'.checkpoints = db.checkpoints) : CheckpointsShow x db' := by
  intro c cp hcp
  rw [hsame] at hcp
  obtain ⟨ls, hls, hshows⟩ := hs.checkpoints c cp hcp
  exact ⟨ls, he.lineage hls, hshows⟩

theorem insertCommit_extends {commit : H}
    (h : insertCommit x db commit row = .ok db') : Extends db db' := by
  rcases insertCommit_ok h with ⟨hfresh, rfl⟩ | rfl
  · refine ⟨fun c row' hrow => ?_, fun _ _ he => he⟩
    have hne : c ≠ commit := by
      intro heq
      rw [heq, hfresh] at hrow
      cases hrow
    rw [lookup_insert, if_neg hne]
    exact hrow
  · exact ⟨fun _ _ h => h, fun _ _ h => h⟩

/-- **A commit keeps the invariant.** -/
theorem sound_commit (hs : Sound x db) {commit expectedHead : H}
    {secondParent : Option H} (hbuilt : layer.Built)
    (h : db.commitChange x commit expectedHead secondParent layer = .ok db') : Sound x db' := by
  obtain ⟨hparent, h⟩ := check_bind_eq_ok.mp h
  obtain ⟨_, h⟩ := check_bind_eq_ok.mp h
  obtain ⟨hvalidate, h⟩ := check_bind_eq_ok.mp h
  obtain ⟨⟨⟨id, hash⟩, layers⟩, hpersist, hinsert⟩ := bind_eq_ok.mp h
  obtain ⟨rows, built, bytes, hentry, hbuilt', hbytes, hrows, hcanonical, hold, hnew⟩ :=
    LayerTable.persistLayer_changes x.hash x.real hs.layers hbuilt hpersist
  obtain ⟨ls, hls, hconsistent, hknown, haccepted⟩ :=
    accepted_of_validated hs hbuilt hparent hvalidate
  -- the database with the layer, and then with the commit
  have hmid : Extends db { db with layers } := ⟨fun _ _ hrow => hrow, hold⟩
  have hstores : Stores x { db with layers } id layer.canonical :=
    ⟨rows, built, bytes, hentry, hbuilt', hbytes, hrows, hcanonical⟩
  have hsafe : LayerTable.Safe x.hash x.real layers :=
    LayerTable.safe_step x.hash x.real hs.layers (.persist hbuilt hpersist)
  have hstable : TuplesStable ({ db with layers } : Database H).tuples :=
    stable_accepted hs.stable hbuilt.formed haccepted fun _ hrecord =>
      mem_tuples_persisted hbuilt' hrows hcanonical hnew hrecord
  have hkept := kept_accepted hconsistent hknown hbuilt.formed haccepted (fun _ => hmid.tuples)
    fun rel delta hdelta => (stores_formed hstores).2 rel delta hdelta
  have hall : Extends db db' := hmid.trans (insertCommit_extends hinsert)
  rcases insertCommit_ok hinsert with ⟨hfresh, rfl⟩ | rfl
  · refine ⟨hsafe, fun c row hrow => ?_, hs.checkpoints_extend hall rfl, hstable⟩
    rw [lookup_insert] at hrow
    split at hrow
    · rename_i hc
      subst hc
      have hself : (db.commits.insert c ⟨some expectedHead, secondParent, id⟩)[c]? =
          some ⟨some expectedHead, secondParent, id⟩ := by
        rw [lookup_insert, if_pos rfl]
      exact ⟨layer.canonical :: ls, .child hself rfl hstores (hall.lineage hls), hkept⟩
    · exact hs.commits_extend hall rfl hrow
  · exact ⟨hsafe, fun c row hrow => hs.commits_extend hmid rfl hrow,
      hs.checkpoints_extend hmid rfl, hstable⟩

/-- **Every change keeps the invariant.** -/
theorem sound_step (hs : Sound x db) (hstep : Step x db db') : Sound x db' := by
  cases hstep with
  | @identities ids h =>
    have he : Extends db { db with ids } := ⟨fun _ _ h => h, fun _ _ h => h⟩
    refine ⟨hs.layers, fun c row hrow => ?_, fun c cp hcp => ?_, hs.stable⟩
    · obtain ⟨ls, hls, hconsistent, hknown⟩ := hs.commits c row hrow
      exact ⟨ls, he.lineage hls, hconsistent, known_mono hknown h fun _ hrecord => hrecord⟩
    · obtain ⟨ls, hls, hshows⟩ := hs.checkpoints c cp hcp
      exact ⟨ls, he.lineage hls, hshows⟩
  | @commit commit expectedHead secondParent layer hbuilt =>
    cases hresult : db.commitChange x commit expectedHead secondParent layer with
    | error error => exact hs
    | ok db' => exact sound_commit hs hbuilt hresult
  | createCheckpoint commit =>
    cases hresult : db.createCheckpoint x commit with
    | error error => exact hs
    | ok db' =>
      show Sound x db'
      rcases createCheckpoint_ok hresult with rfl | ⟨cp, row, rfl, hrow, hshows⟩
      · exact hs
      · have he : Extends db { db with checkpoints := db.checkpoints.insert commit cp } :=
          ⟨fun _ _ h => h, fun _ _ h => h⟩
        refine ⟨hs.layers, fun c row hrow => ?_, fun c cp' hcp => ?_, hs.stable⟩
        · obtain ⟨ls, hls, hrest⟩ := hs.commits c row hrow
          exact ⟨ls, he.lineage hls, hrest⟩
        · rw [lookup_insert] at hcp
          split at hcp
          · rename_i hc
            cases hcp
            subst hc
            obtain ⟨ls, hls, _⟩ := hs.commits c row hrow
            exact ⟨ls, he.lineage hls, hshows hls⟩
          · obtain ⟨ls, hls, hshows⟩ := hs.checkpoints c cp' hcp
            exact ⟨ls, he.lineage hls, hshows⟩
  | deleteCheckpoint commit =>
    have he : Extends db (db.deleteCheckpoint commit) := ⟨fun _ _ h => h, fun _ _ h => h⟩
    refine ⟨hs.layers, fun c row hrow => ?_, fun c cp hcp => ?_, hs.stable⟩
    · obtain ⟨ls, hls, hrest⟩ := hs.commits c row hrow
      exact ⟨ls, he.lineage hls, hrest⟩
    · have hentry : (db.checkpoints.erase commit)[c]? = some cp := hcp
      rw [lookup_erase] at hentry
      split at hentry
      · cases hentry
      · obtain ⟨ls, hls, hshows⟩ := hs.checkpoints c cp hentry
        exact ⟨ls, he.lineage hls, hshows⟩

/-- **Every change keeps commits and layers.** -/
theorem extends_step (hs : Sound x db) (hstep : Step x db db') : Extends db db' := by
  have hsame : Extends db db := ⟨fun _ _ h => h, fun _ _ h => h⟩
  cases hstep with
  | identities _ => exact ⟨fun _ _ h => h, fun _ _ h => h⟩
  | @commit commit expectedHead secondParent layer hbuilt =>
    cases hresult : db.commitChange x commit expectedHead secondParent layer with
    | error error => exact hsame
    | ok db' =>
      obtain ⟨_, h⟩ := check_bind_eq_ok.mp hresult
      obtain ⟨_, h⟩ := check_bind_eq_ok.mp h
      obtain ⟨_, h⟩ := check_bind_eq_ok.mp h
      obtain ⟨⟨⟨id, hash⟩, layers⟩, hpersist, hinsert⟩ := bind_eq_ok.mp h
      obtain ⟨_, _, _, _, _, _, _, _, hold, _⟩ :=
        LayerTable.persistLayer_changes x.hash x.real hs.layers hbuilt hpersist
      have hmid : Extends db { db with layers } := ⟨fun _ _ hrow => hrow, hold⟩
      exact hmid.trans (insertCommit_extends hinsert)
  | createCheckpoint commit =>
    cases hresult : db.createCheckpoint x commit with
    | error error => exact hsame
    | ok db' =>
      show Extends db db'
      rcases createCheckpoint_ok hresult with rfl | ⟨cp, row, rfl, _, _⟩
      · exact hsame
      · exact ⟨fun _ _ h => h, fun _ _ h => h⟩
  | deleteCheckpoint commit => exact ⟨fun _ _ h => h, fun _ _ h => h⟩

theorem sound_root {db : Database H} {root : H} (h : initializeRoot x {} root = .ok db) :
    Sound x db := by
  obtain ⟨⟨⟨id, hash⟩, layers⟩, hpersist, h⟩ := bind_eq_ok.mp h
  cases h
  have hsafe : LayerTable.Safe x.hash x.real ({} : LayerTable H) :=
    LayerTable.tableSafe x.hash x.real (.refl _)
  obtain ⟨rows, built, bytes, hentry, hbuilt, hbytes, hrows, hcanonical, _, hnew⟩ :=
    LayerTable.persistLayer_changes x.hash x.real hsafe layerBuilder_empty_built hpersist
  have htuples : ∀ {record : RelationshipRecord},
      record ∉ ({ ({} : Database H) with layers } : Database H).tuples := by
    intro record hrecord
    have hnothing : built.canonical = LayerBuilder.canonical {} :=
      hcanonical.trans (LayerBuilder.isEmpty_iff.mp rfl).symm
    rcases mem_tuples_persisted hbuilt hrows hnothing hnew hrecord with hold | ⟨_, _, hdelta, _⟩
    · simp [tuples] at hold
    · simp at hdelta
  refine ⟨LayerTable.safe_step x.hash x.real hsafe (.persist layerBuilder_empty_built hpersist),
    fun c row hrow => ?_, fun c cp hcp => ?_, fun record hrecord => absurd hrecord htuples⟩
  · rw [lookup_insert] at hrow
    split at hrow
    · rename_i hc
      subst hc
      refine ⟨[{}], .root (by rw [lookup_insert, if_pos rfl]) rfl
        ⟨rows, built, bytes, hentry, hbuilt, hbytes, hrows, hcanonical⟩, ?_, ?_⟩
      · show (GraphState.apply {} {}).Consistent
        exact consistent_empty
      · show (GraphState.apply {} {}).Known _ _
        exact known_empty
    · simp at hrow
  · simp at hcp

/-- **Over every run the invariant holds.** -/
theorem sound_reaches {db : Database H} (h : Reaches x db) : Sound x db := by
  induction h with
  | root h => exact sound_root h
  | step _ hstep ih => exact sound_step ih hstep

/-! ## 4. Checkpoints are transparent -/

/-- Checkpoints are created and deleted, and nothing else changes. -/
inductive Rechecks (x : Externals H) : Database H → Database H → Prop
  | refl (db : Database H) : Rechecks x db db
  | create {db db' : Database H} (h : Rechecks x db db') (commit : H) :
      Rechecks x db (db'.savepoint (db'.createCheckpoint x commit))
  | delete {db db' : Database H} (h : Rechecks x db db') (commit : H) :
      Rechecks x db (db'.deleteCheckpoint commit)

omit [LawfulEqOrd H] in
theorem Rechecks.reaches (hr : Rechecks x db db') (h : Reaches x db) : Reaches x db' := by
  induction hr with
  | refl => exact h
  | create _ commit ih => exact .step ih (.createCheckpoint _ commit)
  | delete _ commit ih => exact .step ih (.deleteCheckpoint _ commit)

omit [LawfulEqOrd H] [DecidableEq H] in
theorem createCheckpoint_frame (db : Database H) (commit : H) :
    ∃ checkpoints, db.savepoint (db.createCheckpoint x commit) = { db with checkpoints } := by
  unfold createCheckpoint
  split
  · exact ⟨db.checkpoints, rfl⟩
  · cases db.firstParentLayers commit with
    | error error => exact ⟨db.checkpoints, rfl⟩
    | ok layers =>
      rw [ok_bind]
      cases layers.foldlM (fun cp id => CheckpointRows.applyLayer x.real cp (db.layerRows id)) {}
        with
      | error error => exact ⟨db.checkpoints, rfl⟩
      | ok rows => exact ⟨db.checkpoints.insert commit rows, rfl⟩

omit [LawfulEqOrd H] [DecidableEq H] in
theorem Rechecks.frame (hr : Rechecks x db db') : ∃ checkpoints, db' = { db with checkpoints } := by
  induction hr with
  | refl => exact ⟨db.checkpoints, rfl⟩
  | @create db' _ commit ih =>
    obtain ⟨before, rfl⟩ := ih
    obtain ⟨checkpoints, h⟩ := createCheckpoint_frame (x := x) { db with checkpoints := before }
      commit
    exact ⟨checkpoints, h⟩
  | @delete db' _ commit ih =>
    obtain ⟨before, rfl⟩ := ih
    exact ⟨before.erase commit, rfl⟩

omit [LawfulEqOrd H] [DecidableEq H] in
theorem Sound.unchecked {db : Database H} (hs : Sound x db) :
    Sound x { db with checkpoints := ∅ } := by
  have he : Extends db { db with checkpoints := ∅ } := ⟨fun _ _ h => h, fun _ _ h => h⟩
  refine ⟨hs.layers, fun c row hrow => ?_, fun c cp hcp => ?_, hs.stable⟩
  · obtain ⟨ls, hls, hrest⟩ := hs.commits c row hrow
    exact ⟨ls, he.lineage hls, hrest⟩
  · simp at hcp

/-- **Checkpoints are transparent.** Each commit of a database that a run reaches loads from the
    root, without any checkpoint; and whatever checkpoints the database has, has had or gets, and
    whichever one is skipped, it loads as that graph and answers every reader alike. -/
theorem checkpointTransparent {db : Database H} (h : Reaches x db) {c : H}
    (hc : db.commits.contains c = true) :
    ∃ ls s₀, Lineage x db c ls ∧
      ({ db with checkpoints := ∅ } : Database H).resolveState x c none = .ok s₀ ∧
      s₀.checkpoint = none ∧ s₀.snapshot.graph = graphOf ls ∧
      ∀ {db' : Database H}, Rechecks x db db' → ∀ skip, ∃ s,
        db'.resolveState x c skip = .ok s ∧ s.snapshot.graph = graphOf ls ∧
          IndexedSnapshot.SameAnswers s s₀ := by
  rw [ExtTreeMap.contains_eq_isSome_getElem?] at hc
  obtain ⟨row, hrow⟩ := Option.isSome_iff_exists.mp hc
  have hunchecked := (sound_reaches h).unchecked
  obtain ⟨s₀, ls, hresolve₀, hls₀, hgraph₀, hvalid₀, _, hnone⟩ :=
    hunchecked.resolve (c := c) hrow none
  have hback : Extends ({ db with checkpoints := ∅ } : Database H) db :=
    ⟨fun _ _ h => h, fun _ _ h => h⟩
  refine ⟨ls, s₀, hback.lineage hls₀, hresolve₀, hnone rfl, hgraph₀, fun {db'} hr skip => ?_⟩
  have hsound' := sound_reaches (hr.reaches h)
  obtain ⟨checkpoints, rfl⟩ := hr.frame
  obtain ⟨s, ls', hresolve, hls', hgraph, hvalid, _⟩ := hsound'.resolve (c := c) hrow skip
  have hsame : Extends ({ db with checkpoints } : Database H) { db with checkpoints := ∅ } :=
    ⟨fun _ _ h => h, fun _ _ h => h⟩
  rw [(hsame.lineage hls').unique hls₀] at hgraph
  exact ⟨s, hresolve, hgraph,
    IndexedSnapshot.sameAnswers_of_graph hvalid.sound hvalid₀.sound (hgraph.trans hgraph₀.symm)⟩

/-! ## 5. Invariants -/

omit [LawfulEqOrd H] in
theorem rejected_unchanged {db : Database H} {commit expectedHead : H} {secondParent : Option H}
    {error : StorageError} (h : db.validateCandidateLayer x expectedHead layer = .error error) :
    db.savepoint (db.commitChange x commit expectedHead secondParent layer) = db := by
  unfold commitChange
  cases db.requireCommit x expectedHead with
  | error error => rfl
  | ok _ =>
    cases db.requireSecondParent x secondParent with
    | error error => rfl
    | ok _ =>
      simp only [ok_bind, h]
      rfl

/-- What the check of layers sees to, in one layer and over runs. -/
structure InvariantsKept (x : Externals H) : Prop where
  /-- One layer over a valid snapshot: rejected, or valid again, and nothing of what is marked
      removed exists. -/
  layer : ∀ {s : IndexedSnapshot} {l : LayerBuilder} {ids : Identities}
    {tuples : RelationshipTuples}, s.Valid tuples → l.Formed →
      (∃ error, s.validateLayer l ids tuples = .error error) ∨
        ((s.applyLayer l).Valid (tuples ++ l.relationships.toList.map fun e => e.2.record) ∧
          (s.applyLayer l).snapshot.graph = s.snapshot.graph.apply l ∧
            (s.applyLayer l).snapshot.Unmarked)
  /-- A rejected layer changes nothing. -/
  rejected : ∀ {db : Database H} {commit expectedHead : H} {secondParent : Option H}
    {layer : LayerBuilder} {error : StorageError},
      db.validateCandidateLayer x expectedHead layer = .error error →
        db.savepoint (db.commitChange x commit expectedHead secondParent layer) = db
  /-- Over every run, each commit loads as a valid snapshot, wherever it starts. -/
  commits : ∀ {db : Database H} {c : H}, Reaches x db → db.commits.contains c = true →
    ∀ skip, ∃ s, db.resolveState x c skip = .ok s ∧ s.Valid db.tuples ∧ s.snapshot.Unmarked

/-- **Every committed snapshot keeps the invariants of a graph.** -/
theorem invariantsKept (x : Externals H) : InvariantsKept x where
  layer := by
    intro s l ids tuples hs hl
    cases hcheck : s.validateLayer l ids tuples with
    | error error => exact Or.inl ⟨error, rfl⟩
    | ok _ =>
      have hvalid := IndexedSnapshot.valid_applyLayer hs hl hcheck
      refine Or.inr ⟨hvalid, ?_, hvalid.sound.formed.unmarked⟩
      rw [IndexedSnapshot.snapshot_applyLayer hs.sound hl, Snapshot.graph_applyLayer]
  rejected := by
    intro db commit expectedHead secondParent layer error h
    exact rejected_unchanged h
  commits := by
    intro db c h hc skip
    rw [ExtTreeMap.contains_eq_isSome_getElem?] at hc
    obtain ⟨row, hrow⟩ := Option.isSome_iff_exists.mp hc
    obtain ⟨s, ls, hresolve, _, _, hvalid, _⟩ := (sound_reaches h).resolve hrow skip
    exact ⟨s, hresolve, hvalid, hvalid.sound.formed.unmarked⟩

/-! ## 6. A database of two commits -/

/-- The bytes as digits of one number, so that no two strings of bytes share it. -/
def digits : Externals Int :=
  ⟨fun bytes => bytes.foldl (fun number (byte : UInt8) => 256 * number + byte.toNat) 1, toString,
    exactColumn⟩

/-- The root, and node 1 allocated. -/
def rooted : Database Int :=
  { ({} : Database Int).savepoint (initializeRoot digits {} 0) with ids := { nextNode := 3 } }

/-- A commit that adds node 1. -/
def oneNode : Database Int :=
  rooted.savepoint (rooted.commitChange digits 1 0 none (.ofNode 1 true))

theorem oneNode_reached : Reaches digits oneNode := by
  have hinit : initializeRoot digits {} (0 : Int) =
      .ok (({} : Database Int).savepoint (initializeRoot digits {} 0)) := rfl
  have hroot := Reaches.root hinit
  have hids : Reaches digits rooted := by
    refine .step hroot (.identities ⟨by decide, by decide, ?_, ?_, ?_⟩)
    · exact fun _ h => h
    · exact fun _ h => h
    · exact fun _ h => h
  have hbuilt : (LayerBuilder.ofNode 1 true).Built :=
    newNode_built (by decide) (show LayerBuilder.supply [.addNode 1] = .ok _ from rfl)
  exact .step hids (.commit rooted 1 0 none hbuilt)

/-- With a checkpoint at the commit, and without it. -/
theorem checkpointTransparent_oneNode : ∃ ls s₀ s, Lineage digits oneNode 1 ls ∧
    (oneNode.savepoint (oneNode.createCheckpoint digits 1)).resolveState digits 1 none = .ok s ∧
      s.checkpoint.isSome ∧ s.snapshot.graph = graphOf ls ∧ IndexedSnapshot.SameAnswers s s₀ := by
  obtain ⟨ls, s₀, hls, _, _, _, hall⟩ :=
    checkpointTransparent oneNode_reached (show oneNode.commits.contains 1 = true from rfl)
  obtain ⟨s, hs, hgraph, hsame⟩ := hall (.create (.refl oneNode) 1) none
  refine ⟨ls, s₀, s, hls, hs, ?_, hgraph, hsame⟩
  have hchecked : ∃ s, (oneNode.savepoint
      (oneNode.createCheckpoint digits 1)).resolveState digits 1 none = .ok s ∧
        s.checkpoint.isSome := ⟨_, rfl, rfl⟩
  obtain ⟨s', hs', hsome⟩ := hchecked
  rw [hs] at hs'
  cases hs'
  exact hsome

/-- The commit of node 1 is a valid snapshot. -/
theorem invariantsKept_oneNode : ∃ s, oneNode.resolveState digits 1 none = .ok s ∧
    s.Valid oneNode.tuples ∧ s.snapshot.Unmarked :=
  (invariantsKept digits).commits oneNode_reached rfl none

/-- **A layer that adds a node which is there is accepted**, and so is one that removes a node
    which is not. -/
theorem repeatedChange_accepted : ∃ s : IndexedSnapshot,
    oneNode.resolveState digits 1 none = .ok s ∧ s.Valid oneNode.tuples ∧
      (s.snapshot.nodeExists 1 = true ∧
        s.validateLayer (.ofNode 1 true) oneNode.ids oneNode.tuples = .ok () ∧
          ∃ db, oneNode.commitChange digits 2 1 none (.ofNode 1 true) = .ok db) ∧
      (s.snapshot.nodeExists 2 = false ∧
        s.validateLayer (.ofNode 2 false) oneNode.ids oneNode.tuples = .ok () ∧
          ∃ db, oneNode.commitChange digits 3 1 none (.ofNode 2 false) = .ok db) := by
  have hrow : ∃ row, oneNode.commits[(1 : Int)]? = some row := ⟨_, rfl⟩
  obtain ⟨row, hrow⟩ := hrow
  obtain ⟨s, _, hresolve, _, _, hvalid, _⟩ := (sound_reaches oneNode_reached).resolve hrow none
  have hloaded : ∃ s, oneNode.resolveState digits 1 none = .ok s ∧
      (s.snapshot.nodeExists 1 = true ∧
        s.validateLayer (.ofNode 1 true) oneNode.ids oneNode.tuples = .ok () ∧
          ∃ db, oneNode.commitChange digits 2 1 none (.ofNode 1 true) = .ok db) ∧
      (s.snapshot.nodeExists 2 = false ∧
        s.validateLayer (.ofNode 2 false) oneNode.ids oneNode.tuples = .ok () ∧
          ∃ db, oneNode.commitChange digits 3 1 none (.ofNode 2 false) = .ok db) :=
    ⟨_, rfl, ⟨rfl, rfl, _, rfl⟩, rfl, rfl, _, rfl⟩
  obtain ⟨s', hresolve', hrest⟩ := hloaded
  rw [hresolve] at hresolve'
  cases hresolve'
  exact ⟨s, hresolve, hvalid, hrest⟩

end Database

end Lithograph.Storage
