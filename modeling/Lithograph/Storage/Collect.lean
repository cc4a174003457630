/-
  File:      Lithograph/Storage/Collect.lean
  Subject:   A part of a database that keeps, with a commit, its first parents, its layer and its
             checkpoint, as garbage collection leaves one (`storage/version/gc.rs`).

  * `Part.resolve`: a commit that stays is loaded as the same graph.
-/
import Lithograph.Storage.HistoryRuns

namespace Lithograph.Storage.Database

open Std Library

variable {H : Type} [Ord H] [TransOrd H] [LawfulEqOrd H] [DecidableEq H] {x : Externals H}

/-! ## 1. Parts of a database -/

/-- **A part of a database**: what is there is as it was, and what a commit that stays needs is
    there. -/
structure Part (db db' : Database H) : Prop where
  ids : db'.ids = db.ids
  nextId : db'.layers.nextId = db.layers.nextId
  commits : ∀ (c : H) row, db'.commits[c]? = some row → db.commits[c]? = some row
  layers : ∀ (id : Int) e, db'.layers.layers[id]? = some e → db.layers.layers[id]? = some e
  checkpoints : ∀ (c : H) cp, db'.checkpoints[c]? = some cp →
    db.checkpoints[c]? = some cp ∧ ∃ row, db'.commits[c]? = some row
  parents : ∀ (c : H) row p row', db'.commits[c]? = some row → row.parent1 = some p →
    db.commits[p]? = some row' → db'.commits[p]? = some row'
  used : ∀ (c : H) row e, db'.commits[c]? = some row →
    db.layers.layers[row.layerId]? = some e → db'.layers.layers[row.layerId]? = some e

variable {db db' : Database H} {c : H} {ls : List LayerBuilder}

omit [LawfulEqOrd H] [DecidableEq H] in
theorem Part.stores (hp : Part db db') {row : CommitRow H}
    (hrow : db'.commits[c]? = some row) {l : LayerBuilder} (h : db.Stores x row.layerId l) :
    db'.Stores x row.layerId l := by
  obtain ⟨rows, built, bytes, hentry, hrest⟩ := h
  exact ⟨rows, built, bytes, hp.used c row _ hrow hentry, hrest⟩

omit [LawfulEqOrd H] [DecidableEq H] in
/-- **A commit that stays keeps its lineage.** -/
theorem Part.lineage (hp : Part db db')
    (h : Lineage x db c ls) : (∃ row, db'.commits[c]? = some row) → Lineage x db' c ls := by
  induction h with
  | @root c row l hrow hparent hstores =>
    rintro ⟨row', hrow'⟩
    have hold := hp.commits c row' hrow'
    rw [hrow] at hold
    cases hold
    exact .root hrow' hparent (hp.stores hrow' hstores)
  | @child c parent row l ls hrow hparent hstores h ih =>
    rintro ⟨row', hrow'⟩
    have hold := hp.commits c row' hrow'
    rw [hrow] at hold
    cases hold
    have hkept : ∃ row', db'.commits[parent]? = some row' := by
      have hcommit : ∃ row', db.commits[parent]? = some row' := by
        cases h with
        | root hrow _ _ => exact ⟨_, hrow⟩
        | child hrow _ _ _ => exact ⟨_, hrow⟩
      obtain ⟨row', hparentRow⟩ := hcommit
      exact ⟨row', hp.parents c row parent row' hrow' hparent hparentRow⟩
    exact .child hrow' hparent (hp.stores hrow' hstores) (ih hkept)

omit [LawfulEqOrd H] [DecidableEq H] in
theorem Part.tuples (hp : Part db db') {record : RelationshipRecord}
    (h : record ∈ db'.tuples) : record ∈ db.tuples := by
  obtain ⟨e, hentry, hrecord⟩ := List.mem_flatMap.mp h
  exact List.mem_flatMap.mpr ⟨e,
    mem_of_lookup (hp.layers e.1 e.2 (lookup_of_mem hentry)), hrecord⟩

/-! ## 2. What a lineage needs of the stored rows -/

theorem relationship_of_layers : ∀ {ls : List LayerBuilder} {id : RelationshipId}
    {record : RelationshipRecord}, (graphOf ls).relationships[id]? = some record →
      ∃ l ∈ ls, ∃ delta, l.relationships[id]? = some delta ∧ delta.record = record
  | [], id, record, h => by
    simp [graphOf, applyAll] at h
  | l :: ls, id, record, h => by
    have hlook : ((graphOf ls).apply l).relationships[id]? = some record := h
    rw [GraphState.relationships_apply] at hlook
    cases hl : l.relationships[id]? with
    | none =>
      rw [hl] at hlook
      obtain ⟨l', hmem, delta, hdelta, hrecord⟩ := relationship_of_layers hlook
      exact ⟨l', .tail _ hmem, delta, hdelta, hrecord⟩
    | some delta =>
      rw [hl] at hlook
      exact ⟨l, .head _, delta, hl, (RelationshipDelta.change_some.mp hlook).2⟩

omit [LawfulEqOrd H] [DecidableEq H] in
theorem Lineage.stores (h : Lineage x db c ls) : ∀ l ∈ ls, ∃ id, db.Stores x id l := by
  induction h with
  | root _ _ hstores =>
    intro l hl
    rw [List.mem_singleton.mp hl]
    exact ⟨_, hstores⟩
  | child _ _ hstores _ ih =>
    intro l hl
    rcases List.mem_cons.mp hl with rfl | hl
    · exact ⟨_, hstores⟩
    · exact ih l hl

omit [LawfulEqOrd H] [DecidableEq H] in
theorem Lineage.tuples (h : Lineage x db c ls) {id : RelationshipId} {record : RelationshipRecord}
    (hrecord : (graphOf ls).relationships[id]? = some record) : record ∈ db.tuples := by
  obtain ⟨l, hl, delta, hdelta, rfl⟩ := relationship_of_layers hrecord
  obtain ⟨layerId, hstores⟩ := h.stores l hl
  exact (stores_formed hstores).2 id delta hdelta

/-! ## 3. A part of a sound database -/

omit [LawfulEqOrd H] [DecidableEq H] in
/-- **A part of a sound database is sound.** -/
theorem sound_part (hs : Sound x db) (hp : Part db db') : Sound x db' := by
  refine ⟨⟨?_, ?_⟩, ?_, ?_, ?_⟩
  · intro id h rows hentry
    rw [hp.nextId]
    exact hs.layers.written id h rows (hp.layers id _ hentry)
  · intro id id' h rows rows' hentry hentry'
    exact hs.layers.unique id id' h rows rows' (hp.layers id _ hentry) (hp.layers id' _ hentry')
  · intro c row hrow
    obtain ⟨ls, hls, hconsistent, hknown⟩ := hs.commits c row (hp.commits c row hrow)
    have hls' := hp.lineage hls ⟨row, hrow⟩
    refine ⟨ls, hls', hconsistent, ⟨?_, ?_, fun id record hrecord => ?_, ?_⟩⟩
    · rw [hp.ids]
      exact hknown.nodes
    · rw [hp.ids]
      exact hknown.labels
    · obtain ⟨hid, hpos, hlt, htype, _⟩ := hknown.relationships id record hrecord
      rw [hp.ids]
      exact ⟨hid, hpos, hlt, htype, hls'.tuples hrecord⟩
    · rw [hp.ids]
      exact hknown.properties
  · intro c cp hcp
    obtain ⟨hold, hcommit⟩ := hp.checkpoints c cp hcp
    obtain ⟨ls, hls, hshows⟩ := hs.checkpoints c cp hold
    exact ⟨ls, hp.lineage hls hcommit, hshows⟩
  · intro record hrecord record' hrecord'
    exact hs.stable record (hp.tuples hrecord) record' (hp.tuples hrecord')

/-- **A commit that stays is loaded as the same graph.** -/
theorem Part.resolve (hp : Part db db') (hs : Sound x db) {row : CommitRow H}
    (hrow : db'.commits[c]? = some row) (skip skip' : Option H) :
    ∃ s s', db.resolveState x c skip = .ok s ∧ db'.resolveState x c skip' = .ok s' ∧
      s.snapshot.graph = s'.snapshot.graph ∧ s'.Valid db'.tuples := by
  obtain ⟨s, ls, hresolve, hls, hgraph, _⟩ := hs.resolve (hp.commits c row hrow) skip
  obtain ⟨s', ls', hresolve', hls', hgraph', hvalid, _⟩ := (sound_part hs hp).resolve hrow skip'
  have hsame := (hp.lineage hls ⟨row, hrow⟩).unique hls'
  subst hsame
  exact ⟨s, s', hresolve, hresolve', hgraph.trans hgraph'.symm, hvalid⟩

end Lithograph.Storage.Database
