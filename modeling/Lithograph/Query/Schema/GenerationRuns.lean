/-
  File:      Lithograph/Query/Schema/GenerationRuns.lean
  Subject:   What the generations of an index show over every run
             (`query/schema/index/persistent.rs`, `query/schema/index/persistent/controlled.rs`).

  * `generationUpkeep`: a generation with the overlay of a snapshot has the rows of a build on it.
-/
import Lithograph.Query.Schema.Generation

namespace Lithograph.Query

open Std Library Storage

variable {H : Type} [Ord H] [TransOrd H] [LawfulEqOrd H] [DecidableEq H] {x : IndexExternals H}

/-! ## 1. Generations over a run -/

theorem copyLocalGenerationPages_eq {rows : IndexRows}
    (h : ∀ (key : IndexOwner × Nat) entry, rows[key]? = some entry → entry.stored = entry) :
    copyLocalGenerationPages rows = rows := by
  unfold copyLocalGenerationPages
  rw [scanAll_pageOf (by decide) (sorted_toList rows)]
  have hsame : rows.toList.foldl (fun copied e => copied.insert e.1 e.2.stored) ∅ =
      rows.toList.foldl (fun copied e => copied.insert e.1 e.2) (∅ : IndexRows) :=
    List.foldl_ext _ _ _ fun copied e he => by
      rw [h e.1 e.2 (lookup_of_mem he)]
  rw [hsame]
  have hinsert := insertEntries_empty rows
  unfold insertEntries at hinsert
  rw [ExtTreeMap.foldl_eq_foldl_toList] at hinsert
  exact hinsert

variable {env : ValueEnv} {g : GraphState} {index : IndexDefinition} {ls : List LayerBuilder}

theorem stored_ownerRows {kind : StandardIndexKind} {read : PropertySlot → Option PropertyValue}
    {keys : List PropertyKeyId} {owner : IndexOwner} {found : List IndexEntry}
    (h : ownerRows env kind read keys owner = .ok found) :
    ∀ entry ∈ found, entry.stored = entry := by
  unfold ownerRows at h
  split at h
  · intro entry hentry
    obtain ⟨key, _, hkey⟩ := exists_of_mem_mapM h entry hentry
    obtain ⟨_, _, hvalue⟩ := bind_eq_ok.mp hkey
    exact stored_insertValue hvalue
  · cases h
    exact fun entry hentry => absurd hentry List.not_mem_nil

theorem stored_graphRows {connection : Identities} {owner : IndexOwner} {found : List IndexEntry}
    (h : graphRows env connection g index owner = .ok found) :
    ∀ entry ∈ found, entry.stored = entry := by
  have hnil : ∀ {found : List IndexEntry}, (Except.ok [] : QueryResult _) = .ok found →
      ∀ entry ∈ found, entry.stored = entry := by
    intro found h entry hentry
    cases h
    exact absurd hentry List.not_mem_nil
  unfold graphRows at h
  split at h
  · exact hnil h
  · cases h
    intro entry hentry
    unfold lookupRows at hentry
    split at hentry
    · split at hentry
      · rw [List.mem_singleton.mp hentry]
        rfl
      · exact absurd hentry List.not_mem_nil
    · exact absurd hentry List.not_mem_nil
  · split at h
    · split at h
      · exact stored_ownerRows h
      · exact hnil h
    · exact hnil h
  · split at h
    · split at h
      · exact stored_ownerRows h
      · exact hnil h
    · exact hnil h

theorem IsIndexOf.copied {connection : Identities} {rows : IndexRows}
    (h : IsIndexOf env connection g index rows) : copyLocalGenerationPages rows = rows := by
  refine copyLocalGenerationPages_eq fun key entry hentry => ?_
  obtain ⟨found, hfound, hlook⟩ := h key.1
  rw [show rows[key]? = found[key.2]? from hlook key.2] at hentry
  exact stored_graphRows hfound entry (List.mem_of_getElem? hentry)

namespace IndexStore

variable {st st' : IndexStore H}

/-- A build that fails leaves no generation. -/
def savepoint (st : IndexStore H) : QueryResult (IndexStore H) → IndexStore H
  | .ok st => st
  | .error _ => st

/-- **One change** of the database file or of its generations: a build, one that is interrupted, or
    one that makes room. -/
inductive Step (x : IndexExternals H) : IndexStore H → IndexStore H → Prop
  | storage {st : IndexStore H} {db : Database H} (h : Database.Step x.toExternals st.db db)
      (hnames : NamesKept st.db.ids db.ids) : Step x st { st with db }
  | build (st : IndexStore H) (commit : H) (index : IndexDefinition) :
      Step x st (st.savepoint (st.buildPersistentGeneration x commit index))
  | interrupted (st : IndexStore H) {g : Generation H} (h : g.complete = false) :
      Step x st { st with generations := st.generations ++ [g] }
  | evict (st : IndexStore H) (keep : Generation H → Bool) :
      Step x st { st with generations := st.generations.filter keep }

/-- The stores a run from a root reaches. -/
inductive Reaches (x : IndexExternals H) : IndexStore H → Prop
  | root {db : Database H} {root : H} (h : Database.initializeRoot x.toExternals {} root = .ok db) :
      Reaches x { db }
  | step {st st' : IndexStore H} (h : Reaches x st) (hstep : Step x st st') : Reaches x st'

/-- **Each complete generation is the table of its index on its anchor.** -/
structure Built (x : IndexExternals H) (st : IndexStore H) : Prop where
  sound : Database.Sound x.toExternals st.db
  generations : ∀ g ∈ st.generations, g.complete = true → ∃ index ls, g.definition = index.json ∧
    Database.Lineage x.toExternals st.db g.anchor ls ∧
      IsIndexOf x.env st.db.ids (Database.graphOf ls) index g.entries

variable {commit : H} {s : QuerySnapshot H}

omit [DecidableEq H] in
theorem Built.known (h : Built x st) {ls : List LayerBuilder}
    (hls : Database.Lineage x.toExternals st.db commit ls) :
    (Database.graphOf ls).Known st.db.ids st.db.tuples := by
  have hcommit := hls.commit
  rw [ExtTreeMap.mem_keys, ExtTreeMap.mem_iff_isSome_getElem?] at hcommit
  obtain ⟨row, hrow⟩ := Option.isSome_iff_exists.mp hcommit
  obtain ⟨ls', hls', _, hknown⟩ := h.sound.commits commit row hrow
  rw [hls.unique hls']
  exact hknown

theorem Built.build (h : Built x st)
    (hbuild : st.buildPersistentGeneration x commit index = .ok st') : Built x st' := by
  obtain ⟨state, hstate, hrest⟩ := bind_eq_ok.mp hbuild
  obtain ⟨rows, hrows, hpublish⟩ := bind_eq_ok.mp hrest
  cases hpublish
  have hopens := Opens.resolve (ofStorage_ok.mp hstate)
  obtain ⟨ls, hopened⟩ := hopens.opened h.sound
  have hindex := (QuerySnapshot.rebuildLocal_iff hopened.sound).mp hrows
  refine ⟨h.sound, fun g hg hcomplete => ?_⟩
  rcases List.mem_append.mp hg with hold | hnew
  · exact h.generations g (List.mem_filter.mp hold).1 hcomplete
  · rw [List.mem_singleton.mp hnew]
    refine ⟨index, ls, rfl, hopened.lineage, ?_⟩
    have hgraph := hopened.graph
    rw [show (Database.graphOf ls).apply ((none : Option LayerBuilder).getD {}) =
      Database.graphOf ls from GraphState.apply_empty _] at hgraph
    show IsIndexOf x.env st.db.ids (Database.graphOf ls) index (copyLocalGenerationPages rows)
    rw [hindex.copied, ← hgraph]
    exact hindex

/-- **Every change keeps the generations right.** -/
theorem built_step (h : Built x st) (hstep : Step x st st') : Built x st' := by
  cases hstep with
  | storage hdb hnames =>
    refine ⟨Database.sound_step h.sound hdb, fun g hg hcomplete => ?_⟩
    obtain ⟨index, ls, hdefinition, hls, hindex⟩ := h.generations g hg hcomplete
    exact ⟨index, ls, hdefinition, (Database.extends_step h.sound hdb).lineage hls,
      hindex.congr (graphRows_names (h.known hls) hnames index)⟩
  | build commit index =>
    cases hbuild : st.buildPersistentGeneration x commit index with
    | error e => exact h
    | ok st' => exact h.build hbuild
  | interrupted hincomplete =>
    refine ⟨h.sound, fun g hg hcomplete => ?_⟩
    rcases List.mem_append.mp hg with hold | hnew
    · exact h.generations g hold hcomplete
    · rw [List.mem_singleton.mp hnew, hincomplete] at hcomplete
      cases hcomplete
  | evict keep =>
    exact ⟨h.sound, fun g hg => h.generations g (List.mem_filter.mp hg).1⟩

theorem built_reaches (h : Reaches x st) : Built x st := by
  induction h with
  | root h => exact ⟨Database.sound_root h, fun g hg => absurd hg List.not_mem_nil⟩
  | step _ hstep ih => exact built_step ih hstep

/-! ## 2. Generations that are found -/

theorem loadGenerationCandidates_ok {definitionHash anchor : H} {g : Generation H}
    (h : (st.loadGenerationCandidates definitionHash)[anchor]? = some g) :
    g ∈ st.generations ∧ g.complete = true ∧ g.anchor = anchor := by
  have hloop : ∀ (gs : List (Generation H)) (candidates : ExtTreeMap H (Generation H)),
      (gs.foldl (fun candidates g => candidates.insert g.anchor g) candidates)[anchor]? = some g →
        (g ∈ gs ∧ g.anchor = anchor) ∨ candidates[anchor]? = some g := by
    intro gs
    induction gs with
    | nil => exact fun candidates h => Or.inr h
    | cons first gs ih =>
      intro candidates h
      rcases ih _ h with hin | hbefore
      · exact Or.inl ⟨.tail _ hin.1, hin.2⟩
      · rw [lookup_insert] at hbefore
        split at hbefore
        · rename_i hanchor
          cases hbefore
          exact Or.inl ⟨.head _, hanchor.symm⟩
        · exact Or.inr hbefore
  rcases hloop _ _ h with hin | hnone
  · obtain ⟨hmem, hanchor⟩ := hin
    obtain ⟨hmem, hconditions⟩ := List.mem_filter.mp hmem
    rw [Bool.and_eq_true] at hconditions
    exact ⟨hmem, hconditions.2, hanchor⟩
  · simp at hnone

omit [Ord H] [TransOrd H] [LawfulEqOrd H] [DecidableEq H] in
theorem validGenerationCandidate_ok {definition : Json} {candidate : Option (Generation H)}
    {g : Generation H} (h : validGenerationCandidate definition candidate = some g) :
    candidate = some g ∧ g.definition = definition := by
  obtain ⟨g', hcandidate, hsame⟩ := Option.bind_eq_some_iff.mp h
  split at hsame
  · rename_i hdefinition
    cases hsame
    exact ⟨hcandidate, eq_of_sameJson hdefinition⟩
  · cases hsame

omit [LawfulEqOrd H] [DecidableEq H] in
theorem compatibleFrom_ok (definition : Json) (candidates : ExtTreeMap H (Generation H)) {c : H}
    (h : Database.Lineage x.toExternals st.db c ls) :
    ∀ fuel, ls.length ≤ fuel → ∃ found, st.compatibleFrom definition candidates fuel c = .ok found ∧
      ∀ g, found = some g → g.definition = definition ∧ ∃ anchor, candidates[anchor]? = some g ∧
        Relation.ReflTransGen st.db.FirstParent c anchor := by
  have hfound : ∀ {c : H} {g : Generation H} (fuel : Nat),
      validGenerationCandidate definition candidates[c]? = some g →
        ∃ found, st.compatibleFrom definition candidates (fuel + 1) c = .ok found ∧
          ∀ g, found = some g → g.definition = definition ∧ ∃ anchor, candidates[anchor]? = some g ∧
            Relation.ReflTransGen st.db.FirstParent c anchor := by
    intro c g fuel hvalid
    refine ⟨some g, by simp only [compatibleFrom, hvalid], fun g' hg' => ?_⟩
    cases hg'
    obtain ⟨hcandidate, hdefinition⟩ := validGenerationCandidate_ok hvalid
    exact ⟨hdefinition, c, hcandidate, .refl⟩
  induction h with
  | @root c row l hrow hparent _ =>
    intro fuel hfuel
    obtain ⟨fuel, rfl⟩ := Nat.exists_eq_add_of_le' hfuel
    cases hvalid : validGenerationCandidate definition candidates[c]? with
    | some g => exact hfound _ hvalid
    | none =>
      refine ⟨none, ?_, fun g hg => by cases hg⟩
      rw [show fuel + [l].length = fuel + 1 from rfl]
      simp only [compatibleFrom, hvalid, hrow, hparent]
  | @child c parent row l ls hrow hparent _ _ ih =>
    intro fuel hfuel
    obtain ⟨fuel, rfl⟩ := Nat.exists_eq_add_of_le' hfuel
    rw [show fuel + (l :: ls).length = fuel + ls.length + 1 from rfl]
    cases hvalid : validGenerationCandidate definition candidates[c]? with
    | some g => exact hfound _ hvalid
    | none =>
      obtain ⟨found, hrest, hg⟩ := ih (fuel + ls.length) (Nat.le_add_left _ _)
      refine ⟨found, ?_, fun g hsome => ?_⟩
      · simp only [compatibleFrom, hvalid, hrow, hparent]
        exact hrest
      · obtain ⟨hdefinition, anchor, hcandidate, hchain⟩ := hg g hsome
        exact ⟨hdefinition, anchor, hcandidate, .head ⟨row, hrow, hparent⟩ hchain⟩

/-- **A generation that is found** is complete, has the definition and is on the first-parent chain.
-/
theorem compatiblePersistentGeneration_ok
    (h : Database.Lineage x.toExternals st.db commit ls) (index : IndexDefinition) :
    ∃ found, st.compatiblePersistentGeneration x commit index = .ok found ∧
      ∀ g, found = some g → g ∈ st.generations ∧ g.complete = true ∧ g.definition = index.json ∧
        Relation.ReflTransGen st.db.FirstParent commit g.anchor := by
  obtain ⟨found, hfound, hg⟩ := compatibleFrom_ok index.json
    (st.loadGenerationCandidates (x.definitionHash index.json)) h (st.db.commits.size + 1)
    (Nat.le_succ_of_le h.length_le)
  refine ⟨found, hfound, fun g hsome => ?_⟩
  obtain ⟨hdefinition, anchor, hcandidate, hchain⟩ := hg g hsome
  obtain ⟨hmem, hcomplete, rfl⟩ := loadGenerationCandidates_ok hcandidate
  exact ⟨hmem, hcomplete, hdefinition, hchain⟩

/-! ## 3. The rows of a binding -/

omit [TransOrd H] [LawfulEqOrd H] [DecidableEq H] in
theorem keepsTypes_recorded {ids : Identities} {db : Database H} {t : LayerBuilder}
    (hknown : g.Known ids db.tuples) (hstable : Database.TuplesStable db.tuples)
    (ht : db.Recorded t) : KeepsTypes g t := by
  intro id d hd
  obtain ⟨hid, hmem⟩ := ht id d hd
  refine ⟨hid, fun record hrecord => ?_⟩
  obtain ⟨hrecordId, _, _, _, hrecordMem⟩ := hknown.relationships id record hrecord
  rw [hstable d.record hmem record hrecordMem (hid.trans hrecordId.symm)]

/-- **Owners that did not change have the rows of the anchor.** -/
theorem changedSince_ok (hbuilt : Built x st) (index : IndexDefinition)
    {anchor : H} {ls' : List LayerBuilder}
    (hls' : Database.Lineage x.toExternals st.db anchor ls')
    (hls : Database.Lineage x.toExternals st.db s.commit ls)
    (hchain : Relation.ReflTransGen st.db.FirstParent s.commit anchor) :
    ∃ changed, st.changedSince s index anchor = .ok changed ∧
      ∀ owner : IndexOwner, changed.contains owner = false →
        graphRows x.env s.connection (Database.graphOf ls) index owner =
          graphRows x.env s.connection (Database.graphOf ls') index owner := by
  unfold changedSince
  by_cases hsame : anchor = s.commit
  · subst hsame
    rw [hls.unique hls', if_pos rfl]
    exact ⟨∅, rfl, fun _ _ => rfl⟩
  · obtain ⟨t, ht, happly, hrecorded⟩ := Database.loadTouched_ok hls' hls hchain
    rw [if_neg hsame, ht]
    refine ⟨_, rfl, fun owner howner => ?_⟩
    rw [← happly]
    refine graphRows_apply (keepsTypes_recorded (hbuilt.known hls') hbuilt.sound.stable hrecorded)
      fun hmem => ?_
    rw [(contains_insertChanged owner _ _).mpr (Or.inr hmem)] at howner
    cases howner

theorem preparePersistentGenerationOverlay_eq (hbuilt : Built x st)
    (index : IndexDefinition) {g : Generation H} {ls' : List LayerBuilder}
    (hs : Opened x.toExternals st.db s ls)
    (hls' : Database.Lineage x.toExternals st.db g.anchor ls')
    (hchain : Relation.ReflTransGen st.db.FirstParent s.commit g.anchor) :
    ∃ changed : ChangedOwners,
      (∀ owner : IndexOwner, changed.contains owner = false →
        graphRows x.env s.connection s.state.snapshot.graph index owner =
          graphRows x.env s.connection (Database.graphOf ls') index owner) ∧
      st.preparePersistentGenerationOverlay x s index g = (do
        let localRows ← derive (graphRows x.env s.connection s.state.snapshot.graph index)
          changed.keys
        pure ⟨g.entries, changed, localRows⟩) := by
  obtain ⟨changed, hchanged, hrows⟩ := changedSince_ok hbuilt index hls' hs.lineage hchain
  unfold preparePersistentGenerationOverlay
  by_cases hfast : g.anchor = s.commit ∧ s.queryLocalLayer.isNone = true
  · obtain ⟨hanchor, hlocal⟩ := hfast
    rw [if_pos ⟨hanchor, hlocal⟩]
    refine ⟨∅, fun owner _ => ?_, ?_⟩
    · rw [hs.graph, Option.isNone_iff_eq_none.mp hlocal,
        show (Database.graphOf ls).apply ((none : Option LayerBuilder).getD {}) =
          Database.graphOf ls from GraphState.apply_empty _]
      rw [hanchor] at hls'
      rw [hs.lineage.unique hls']
    · rfl
  · rw [if_neg hfast, hchanged]
    cases hlocal : s.queryLocalLayer with
    | none =>
      refine ⟨changed, fun owner howner => ?_, ?_⟩
      · rw [hs.graph, hlocal,
          show (Database.graphOf ls).apply ((none : Option LayerBuilder).getD {}) =
            Database.graphOf ls from GraphState.apply_empty _]
        exact hrows owner howner
      · rw [← QuerySnapshot.materialize_eq hs.sound hs.owned]
        rfl
    | some layer =>
      refine ⟨insertChanged changed (relevantChangedOwners s.connection index layer),
        fun owner howner => ?_, ?_⟩
      · have hnot : changed.contains owner = false ∧
            owner ∉ relevantChangedOwners s.connection index layer := by
          refine ⟨eq_false_of_ne_true fun h => ?_, fun h => ?_⟩
          · rw [(contains_insertChanged owner _ _).mpr (Or.inl h)] at howner
            cases howner
          · rw [(contains_insertChanged owner _ _).mpr (Or.inr h)] at howner
            cases howner
        have hgraph := hs.graph
        have hkeyed := hs.keyed
        have htuples := hs.tuples
        rw [hlocal] at hgraph hkeyed htuples
        rw [hgraph]
        refine (graphRows_apply (fun id d hd => ⟨hkeyed id d hd, fun record hrecord => ?_⟩)
          hnot.2).trans (hrows owner hnot.1)
        obtain ⟨hid, _, _, _, hmem⟩ := (hbuilt.known hs.lineage).relationships id record hrecord
        rw [htuples id d hd record hmem (hid.trans (hkeyed id d hd).symm)]
      · rw [← QuerySnapshot.materialize_eq hs.sound hs.owned]
        rfl

/-- **What the index of a snapshot shows**, over every run. -/
structure GenerationUpkeep (x : IndexExternals H) : Prop where
  /-- A complete generation on the first-parent chain, overlaid with the rows of the owners that may
      have changed, has the rows of a build on the snapshot; the other owners have the same rows in
      both. The overlay goes through where the build does. -/
  overlay : ∀ {st : IndexStore H} {s : QuerySnapshot H} {index : IndexDefinition}
    {g : Generation H}, Reaches x st → Opens x.toExternals st.db s → g ∈ st.generations →
      g.complete = true → g.definition = index.json →
      Relation.ReflTransGen st.db.FirstParent s.commit g.anchor →
        (∀ rows, s.rebuildLocal x.env index = .ok rows →
          ∃ b, st.preparePersistentGenerationOverlay x s index g = .ok b ∧
            b.generation = g.entries ∧ b.view.Perm rows.toList ∧
            ∀ owner : IndexOwner, b.changed.contains owner = false →
              ∀ i : Nat, g.entries[(owner, i)]? = rows[(owner, i)]?) ∧
        ∀ b, st.preparePersistentGenerationOverlay x s index g = .ok b →
          ∃ rows, s.rebuildLocal x.env index = .ok rows
  /-- The generation that is taken is such a one. -/
  found : ∀ {st : IndexStore H} {s : QuerySnapshot H} {index : IndexDefinition}
    {g : Generation H}, Reaches x st → Opens x.toExternals st.db s →
      st.compatiblePersistentGeneration x s.commit index = .ok (some g) →
        g ∈ st.generations ∧ g.complete = true ∧ g.definition = index.json ∧
          Relation.ReflTransGen st.db.FirstParent s.commit g.anchor
  /-- Whatever generations there are, the index of a snapshot has the rows of a build. -/
  served : ∀ {st : IndexStore H} {s : QuerySnapshot H} {index : IndexDefinition},
    Reaches x st → Opens x.toExternals st.db s →
      (∀ rows, s.rebuildLocal x.env index = .ok rows →
        ∃ view, st.ensureIndexCache x s index = .ok view ∧ view.Perm rows.toList) ∧
      ∀ view, st.ensureIndexCache x s index = .ok view →
        ∃ rows, s.rebuildLocal x.env index = .ok rows

/-- **A generation with its overlay is a fresh build.** -/
theorem overlay_rows {g : Generation H} (hbuilt : Built x st)
    (hopens : Opens x.toExternals st.db s) (hmem : g ∈ st.generations)
    (hcomplete : g.complete = true) (hdefinition : g.definition = index.json)
    (hchain : Relation.ReflTransGen st.db.FirstParent s.commit g.anchor) :
    (∀ rows, s.rebuildLocal x.env index = .ok rows →
      ∃ b, st.preparePersistentGenerationOverlay x s index g = .ok b ∧
        b.generation = g.entries ∧ b.view.Perm rows.toList ∧
        ∀ owner : IndexOwner, b.changed.contains owner = false →
          ∀ i : Nat, g.entries[(owner, i)]? = rows[(owner, i)]?) ∧
    ∀ b, st.preparePersistentGenerationOverlay x s index g = .ok b →
      ∃ rows, s.rebuildLocal x.env index = .ok rows := by
  obtain ⟨ls, hs⟩ := hopens.opened hbuilt.sound
  obtain ⟨index', ls', hjson, hls', hindex⟩ := hbuilt.generations g hmem hcomplete
  rw [hdefinition] at hjson
  cases json_inj hjson
  rw [← hs.connection] at hindex
  obtain ⟨changed, hsame, heq⟩ :=
    preparePersistentGenerationOverlay_eq hbuilt index hs hls' hchain
  have hhidden : ∀ owner : IndexOwner, changed.contains owner = true ↔ owner ∈ changed.keys :=
    fun owner => by rw [ExtTreeMap.mem_keys, ExtTreeMap.contains_iff_mem]
  obtain ⟨hview, hfresh⟩ := Holds.upkeep hindex hhidden hsame
  rw [heq]
  refine ⟨fun rows hrows => ?_, fun b hb => ?_⟩
  · have hholds := (QuerySnapshot.rebuildLocal_iff hs.sound).mp hrows
    obtain ⟨⟨new, hnew⟩, hkept⟩ := hfresh rows hholds
    obtain ⟨fresh, hfresh, hperm⟩ := hview new hnew
    refine ⟨⟨g.entries, changed, new⟩, by rw [hnew]; rfl, rfl, ?_, fun owner howner i =>
      (hkept owner howner i).symm⟩
    rw [← hfresh.unique hholds]
    exact hperm
  · obtain ⟨new, hnew, _⟩ := bind_eq_ok.mp hb
    obtain ⟨fresh, hfresh, _⟩ := hview new hnew
    exact ⟨fresh, (QuerySnapshot.rebuildLocal_iff hs.sound).mpr hfresh⟩

/-- **A persistent generation plus its local overlay equals a fresh build**, in every state a run
    reaches. -/
theorem generationUpkeep (x : IndexExternals H) : GenerationUpkeep x where
  overlay hreaches hopens hmem hcomplete hdefinition hchain :=
    overlay_rows (built_reaches hreaches) hopens hmem hcomplete hdefinition hchain
  found := by
    intro st s index g hreaches hopens hfound
    obtain ⟨ls, hs⟩ := hopens.opened (built_reaches hreaches).sound
    obtain ⟨found, hfound', hg⟩ := compatiblePersistentGeneration_ok hs.lineage index
    rw [hfound] at hfound'
    cases hfound'
    exact hg g rfl
  served := by
    intro st s index hreaches hopens
    have hbuilt := built_reaches hreaches
    obtain ⟨ls, hs⟩ := hopens.opened hbuilt.sound
    obtain ⟨found, hfound, hg⟩ := compatiblePersistentGeneration_ok hs.lineage index
    unfold ensureIndexCache
    rw [hfound]
    cases found with
    | none =>
      refine ⟨fun rows hrows => ⟨rows.toList, ?_, .refl _⟩, fun view hview => ?_⟩
      · show (do
          let rows ← s.rebuildLocal x.env index
          pure rows.toList) = _
        rw [hrows]
        rfl
      · have hrebuild : (do
            let rows ← s.rebuildLocal x.env index
            pure rows.toList) = .ok view := hview
        obtain ⟨rows, hrows, _⟩ := bind_eq_ok.mp hrebuild
        exact ⟨rows, hrows⟩
    | some g =>
      obtain ⟨hmem, hcomplete, hdefinition, hchain⟩ := hg g rfl
      obtain ⟨hto, hfrom⟩ := overlay_rows hbuilt hopens hmem hcomplete hdefinition hchain
      refine ⟨fun rows hrows => ?_, fun view hview => ?_⟩
      · obtain ⟨b, hb, _, hperm, _⟩ := hto rows hrows
        refine ⟨b.view, ?_, hperm⟩
        show (do
          let b ← st.preparePersistentGenerationOverlay x s index g
          pure b.view) = _
        rw [hb]
        rfl
      · have hbound : (do
            let b ← st.preparePersistentGenerationOverlay x s index g
            pure b.view) = .ok view := hview
        obtain ⟨b, hb, _⟩ := bind_eq_ok.mp hbound
        exact hfrom b hb

/-! ## 4. A generation of the root, and a commit above it -/

open Database

/-- The hash of every definition is the same, and no time zone has a name. -/
def plain : IndexExternals Int :=
  { digits with
    definitionHash := fun _ => 0
    env := ⟨⟨fun _ => false, fun _ _ _ => none⟩, id⟩ }

/-- The index of the property `p` of nodes with the label `A`. -/
def pIndex : IndexDefinition :=
  ⟨"i".toList, .range, .nodeProperties "A".toList ["p".toList], none, [], [], none⟩

/-- The root, where the label and the property key have names. -/
def named : IndexStore Int where
  db :=
    { rooted with
      ids :=
        { nextNode := 3
          labels := .single 1 "A".toList
          propertyKeys := .single 1 "p".toList } }

/-- A generation of the root, which has no rows. -/
def indexed : IndexStore Int := named.savepoint (named.buildPersistentGeneration plain 0 pIndex)

/-- What makes a node of the index. -/
def pChanges : List LayerChange :=
  [.addNode 1, .addLabel 1 1, .setProperty (.node, 1, 1) (.integer 5)]

/-- The layer of these changes. -/
def pNode : LayerBuilder := (pChanges.map LayerChange.entry).foldl LayerEntry.put {}

theorem pNode_built : pNode.Built := by
  refine built_supply (fun c hc => ?_) (by decide)
    (show LayerBuilder.supply pChanges = .ok pNode from rfl)
  rcases List.mem_cons.mp hc with rfl | hc
  · show (1 : Int) < 2 ^ 63
    decide
  · rcases List.mem_cons.mp hc with rfl | hc
    · exact ⟨by decide, by decide⟩
    · rw [List.mem_singleton.mp hc]
      refine ⟨⟨by decide, by decide⟩, fun v hv => ?_⟩
      cases hv
      exact ⟨by decide, by decide⟩

/-- A commit that adds it. -/
def populated : IndexStore Int :=
  { indexed with db := indexed.db.savepoint (indexed.db.commitChange digits 1 0 none pNode) }

set_option maxRecDepth 4000 in
theorem populated_reached : Reaches plain populated := by
  have hinit : initializeRoot digits {} (0 : Int) =
      .ok (({} : Database Int).savepoint (initializeRoot digits {} 0)) := rfl
  have hnamed : Reaches plain named := by
    refine .step (.root hinit) (.storage (.identities ⟨by decide, by decide, ?_, ?_, ?_⟩)
      ⟨?_, ?_, ?_⟩)
    · exact fun _ h => by cases h
    · exact fun _ h => by cases h
    · exact fun _ h => by cases h
    · exact fun _ _ h => by cases h
    · exact fun _ _ h => by cases h
    · exact fun _ _ h => by cases h
  have hindexed : Reaches plain indexed := .step hnamed (.build named 0 pIndex)
  exact .step hindexed (.storage (.commit indexed.db 1 0 none pNode_built)
    ⟨fun _ _ h => h, fun _ _ h => h, fun _ _ h => h⟩)

set_option maxRecDepth 4000 in
/-- Above the generation, which is empty, the node has a row of its own. -/
theorem generationUpkeep_populated : ∃ s g b rows, Opens digits populated.db s ∧ s.commit = 1 ∧
    g ∈ populated.generations ∧ g.entries = ∅ ∧
      populated.preparePersistentGenerationOverlay plain s pIndex g = .ok b ∧
        s.rebuildLocal plain.env pIndex = .ok rows ∧ b.view.Perm rows.toList ∧
          rows.toList.length = 1 := by
  have hgeneration : ∃ g, populated.generations = [g] ∧ g.complete = true ∧ g.anchor = 0 ∧
      g.definition = pIndex.json ∧ g.entries = ∅ := ⟨_, rfl, rfl, rfl, rfl, rfl⟩
  have hloaded : ∃ state, populated.db.resolveState digits 1 none = .ok state ∧
      ∃ rows, QuerySnapshot.rebuildLocal plain.env ⟨populated.db.ids, (1 : Int), state, none⟩
        pIndex = .ok rows ∧ rows.toList.length = 1 := ⟨_, rfl, _, rfl, rfl⟩
  obtain ⟨g, hg, hcomplete, hanchor, hdefinition, hempty⟩ := hgeneration
  obtain ⟨state, hstate, rows, hrows, hlength⟩ := hloaded
  have hopens := Opens.resolve hstate
  have hmem : g ∈ populated.generations := by
    rw [hg]
    exact List.mem_singleton_self g
  have hchain : Relation.ReflTransGen populated.db.FirstParent (1 : Int) g.anchor := by
    rw [hanchor]
    exact .single ⟨⟨some 0, none, 2⟩, rfl, rfl⟩
  obtain ⟨b, hb, _, hperm, _⟩ := ((generationUpkeep plain).overlay populated_reached hopens hmem
    hcomplete hdefinition hchain).1 rows hrows
  exact ⟨_, g, b, rows, hopens, rfl, hmem, hempty, hb, hrows, hperm, hlength⟩

end IndexStore

end Lithograph.Query
