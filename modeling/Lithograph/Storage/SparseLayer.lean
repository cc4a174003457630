/-
  File:      Lithograph/Storage/SparseLayer.lean
  Subject:   The layer between two commits of one first-parent lineage, from the stored layers
             (`storage/version/layer_read.rs`).

  The newest word on each slot is kept; what is no change against the base is left out.

  * `minimalLayer`: it is the layer between the two loaded states, minimal and accepted.
-/
import Lithograph.Storage.HistoryRuns
import Lithograph.Storage.LayerBetween

namespace Lithograph.Storage

open Std Library

/-! ## 1. The newest word on each slot -/

namespace LayerRows

def appendMetadata (rows : LayerRows) (latest : LayerBuilder) : StorageResult LayerBuilder := do
  let latest ← rows.visitNodes
    (fun l id op => pure { l with nodes := insertVacant l.nodes id op }) latest
  let latest ← rows.visitLabels
    (fun l row op => pure { l with labels := insertVacant l.labels row op }) latest
  rows.visitRelationships (fun l delta => pure { l with
    relationships := insertVacant l.relationships delta.record.id delta }) latest

/-- One row of `append_properties`; a slot that is taken is not decoded. -/
def appendProperty (latest : LayerBuilder) (e : PropertySlot × PropertyRow) :
    StorageResult LayerBuilder :=
  if latest.properties.contains e.1 then .ok latest
  else do
    let delta ← e.2.toDelta
    pure { latest with properties := latest.properties.insert e.1 delta }

def appendProperties (rows : LayerRows) (latest : LayerBuilder) : StorageResult LayerBuilder :=
  rows.properties.toList.foldlM appendProperty latest

end LayerRows

/-- One layer over another: the newer one has the word where it has one. -/
def LayerBuilder.over (newer older : LayerBuilder) : LayerBuilder where
  nodes := insertEntries older.nodes newer.nodes
  labels := insertEntries older.labels newer.labels
  relationships := insertEntries older.relationships newer.relationships
  properties := insertEntries older.properties newer.properties

/-- **One layer over another does what they do one after the other.** -/
theorem GraphState.apply_over (g : GraphState) (newer older : LayerBuilder) :
    g.apply (newer.over older) = (g.apply older).apply newer :=
  GraphState.apply_overlay g newer
    ⟨older.nodes, older.labels, older.relationships, older.properties⟩

namespace LayerRows

variable {real : RealColumn} {l : LayerBuilder} {rows : LayerRows}

/-- **The rows of a layer go under what is there.** -/
theorem append_persisted (hbuilt : l.Built) (h : ofLayer real l = .ok rows)
    (latest : LayerBuilder) :
    (rows.appendMetadata latest >>= rows.appendProperties) = .ok (latest.over l.canonical) := by
  have hnodes := foldlM_insertVacant (ε := StorageError) LayerBuilder.nodes
    (fun l m => { l with nodes := m }) (fun _ _ => rfl) (fun _ _ _ => rfl) (fun _ => rfl) l.nodes
    latest
  have hlabels := foldlM_insertVacant (ε := StorageError) LayerBuilder.labels
    (fun l m => { l with labels := m }) (fun _ _ => rfl) (fun _ _ _ => rfl) (fun _ => rfl) l.labels
    { latest with nodes := insertEntries l.nodes latest.nodes }
  have hrelationships := foldlM_insertVacant (ε := StorageError) LayerBuilder.relationships
    (fun l m => { l with relationships := m }) (fun _ _ => rfl) (fun _ _ _ => rfl) (fun _ => rfl)
    l.relationships { latest with
      nodes := insertEntries l.nodes latest.nodes
      labels := insertEntries l.labels latest.labels }
  have hproperties := foldlM_insertVacant (ε := StorageError) LayerBuilder.properties
    (fun l m => { l with properties := m }) (fun _ _ => rfl) (fun _ _ _ => rfl) (fun _ => rfl)
    l.canonical.properties { latest with
      nodes := insertEntries l.nodes latest.nodes
      labels := insertEntries l.labels latest.labels
      relationships := insertEntries l.relationships latest.relationships }
  have hkeyed : ∀ acc : LayerBuilder, l.relationships.toList.foldlM (fun acc e =>
        (pure { acc with
          relationships := insertVacant acc.relationships e.2.record.id e.2 } :
            StorageResult LayerBuilder)) acc =
      l.relationships.toList.foldlM (fun acc e =>
        (pure { acc with relationships := insertVacant acc.relationships e.1 e.2 } :
          StorageResult LayerBuilder)) acc := by
    intro acc
    refine list_foldlM_congr acc fun acc e he => ?_
    rw [(hbuilt.relationships e.1 e.2 (lookup_of_mem he)).1]
  -- every row decodes, so it makes no difference whether a taken slot is decoded
  have hdecoded : ∀ acc : LayerBuilder, rows.appendProperties acc =
      rows.visitProperties (fun l slot delta => pure { l with
        properties := insertVacant l.properties slot delta }) acc := by
    obtain ⟨_, _, _, hrows, hrow⟩ := ofLayer_ok hbuilt h
    intro acc
    unfold appendProperties visitProperties
    refine list_foldlM_congr acc fun acc e he => ?_
    have hentry := lookup_of_mem he
    rw [hrows, ExtTreeMap.getElem?_map] at hentry
    obtain ⟨delta, hdelta, hof⟩ := Option.map_eq_some_iff.mp hentry
    unfold appendProperty insertVacant
    simp only [← hof, hrow e.1 delta hdelta, ok_bind]
    split
    · rfl
    · rfl
  unfold appendMetadata
  simp only [visitNodes_persisted hbuilt h, visitLabels_persisted hbuilt h,
    visitRelationships_persisted hbuilt h]
  rw [hnodes, ok_bind, hlabels, ok_bind, hkeyed, hrelationships, ok_bind, hdecoded,
    visitProperties_persisted hbuilt h, hproperties]
  rfl

end LayerRows

/-! ## 2. Leaving out what is no change -/

namespace LayerBuilder

/-- One round of `normalize_nodes`. -/
def normalizeNode (s : Snapshot) (result : LayerBuilder) (e : NodeId × DeltaOp) :
    StorageResult LayerBuilder :=
  match s.nodeExists e.1, e.2 == .add with
  | false, true => result.addNode e.1
  | true, false => result.removeNode e.1
  | _, _ => .ok result

/-- One round of `normalize_labels`, which streams the labels of a node once. -/
def normalizeLabel (s : Snapshot) (result : LayerBuilder) (e : (NodeId × LabelId) × DeltaOp) :
    StorageResult LayerBuilder :=
  match (s.visitNodeLabels e.1.1).contains e.1.2, e.2 == .add with
  | false, true => result.addLabel e.1.1 e.1.2
  | true, false => result.removeLabel e.1.1 e.1.2
  | _, _ => .ok result

/-- One round of `normalize_relationships`. -/
def normalizeRelationship (s : Snapshot) (result : LayerBuilder)
    (e : RelationshipId × RelationshipDelta) : StorageResult LayerBuilder :=
  match s.relationship e.1, e.2.change with
  | none, some after => result.addRelationship after
  | some before, none => result.removeRelationship before
  | some before, some after =>
    if before ≠ after then .error (.corrupt "Relationship changed immutable endpoints or type")
    else .ok result
  | none, none => .ok result

/-- `property_changed`. -/
def propertyStateChanged (before after : Option PropertyValue) : StorageResult Bool :=
  match before, after with
  | some before, some after => propertyChanged before after
  | before, after => .ok (before.isSome != after.isSome)

/-- One round of `normalize_properties`. -/
def normalizeProperty (s : Snapshot) (result : LayerBuilder) (e : PropertySlot × PropertyDelta) :
    StorageResult LayerBuilder := do
  let changed ← propertyStateChanged (s.property e.1) e.2.value
  if changed then
    match e.2.value with
    | some value => result.setProperty e.1.1 e.1.2.1 e.1.2.2 value
    | none => result.removeProperty e.1.1 e.1.2.1 e.1.2.2
  else pure result

/-- The four loops over the slots that were touched. -/
def normalize (s : Snapshot) (latest : LayerBuilder) : StorageResult LayerBuilder := do
  let result : LayerBuilder := {}
  let result ← latest.nodes.toList.foldlM (normalizeNode s) result
  let result ← latest.labels.toList.foldlM (normalizeLabel s) result
  let result ← latest.relationships.toList.foldlM (normalizeRelationship s) result
  latest.properties.toList.foldlM (normalizeProperty s) result

/-- **A loop over the slots that were touched.** -/
theorem touched_between {K V D δ : Type} [Ord K] [TransOrd K] [LawfulEqOrd K] [DecidableEq K]
    (get : LayerBuilder → ExtTreeMap K δ) (set : LayerBuilder → ExtTreeMap K δ → LayerBuilder)
    (hget : ∀ l m, get (set l m) = m) (hset : ∀ l m m', set (set l m) m' = set l m')
    (hself : ∀ l, set l (get l) = l) {before after : ExtTreeMap K V} {touched : ExtTreeMap K D}
    (between : Option V → Option V → Option δ) (hsame : ∀ v, between v v = none)
    (hkept : ∀ k : K, touched[k]? = none → after[k]? = before[k]?)
    {step : LayerBuilder → K × D → StorageResult LayerBuilder}
    (hstep : ∀ l, ∀ e ∈ touched.toList, step l e =
      .ok (set l (insertSome (get l) e.1 (between before[e.1]? after[e.1]?))))
    (l : LayerBuilder) (hempty : get l = ∅) :
    ∃ m, touched.toList.foldlM step l = .ok (set l m) ∧
      ∀ k : K, m[k]? = between before[k]? after[k]? := by
  obtain ⟨m, hfold, hm⟩ := list_foldlM_component get set hget hset hself
    (fun k _ => between before[k]? after[k]?) l (toList_keys_ne touched) hstep
  refine ⟨m, hfold, fun k => ?_⟩
  cases hd : touched[k]? with
  | none =>
    rw [(hm k).2 (not_mem_toList hd), hkept k hd, hsame, hempty]
    simp
  | some d =>
    rw [(hm k).1 d (mem_of_lookup hd), hempty]
    simp

variable {s : Snapshot} {latest : LayerBuilder}

theorem normalizeNode_ok (hb : s.graph.Stored) (ha : (s.graph.apply latest).Stored)
    (result : LayerBuilder) {e : NodeId × DeltaOp} (he : latest.nodes[e.1]? = some e.2) :
    normalizeNode s result e = .ok { result with
      nodes := insertSome result.nodes e.1
        (existenceBetween s.graph.nodes[e.1]? (s.graph.apply latest).nodes[e.1]?) } := by
  have hafter : (s.graph.apply latest).nodes[e.1]? = e.2.change := by
    rw [GraphState.nodes_apply, he]
    rfl
  unfold normalizeNode existenceBetween
  rw [Snapshot.nodeExists_eq, hafter]
  cases hbefore : s.graph.nodes[e.1]? with
  | none =>
    cases hop : e.2 with
    | add =>
      rw [hop] at hafter
      exact addNode_ok.mpr ⟨ha.nodes e.1 (Option.isSome_of_eq_some hafter), rfl⟩
    | remove => rfl
  | some _ =>
    cases hop : e.2 with
    | add => rfl
    | remove => exact removeNode_ok.mpr ⟨hb.nodes e.1 (Option.isSome_of_eq_some hbefore), rfl⟩

theorem normalizeLabel_ok (hs : s.Formed) (hb : s.graph.Stored)
    (ha : (s.graph.apply latest).Stored) (result : LayerBuilder)
    {e : (NodeId × LabelId) × DeltaOp} (he : latest.labels[e.1]? = some e.2) :
    normalizeLabel s result e = .ok { result with
      labels := insertSome result.labels e.1
        (existenceBetween s.graph.labels[e.1]? (s.graph.apply latest).labels[e.1]?) } := by
  have hafter : (s.graph.apply latest).labels[e.1]? = e.2.change := by
    rw [GraphState.labels_apply, he]
    rfl
  unfold normalizeLabel existenceBetween
  rw [Snapshot.contains_visitNodeLabels hs, hafter]
  cases hbefore : s.graph.labels[e.1]? with
  | none =>
    cases hop : e.2 with
    | add =>
      rw [hop] at hafter
      exact addLabel_ok.mpr ⟨ha.labels e.1 (Option.isSome_of_eq_some hafter), rfl⟩
    | remove => rfl
  | some _ =>
    cases hop : e.2 with
    | add => rfl
    | remove => exact removeLabel_ok.mpr ⟨hb.labels e.1 (Option.isSome_of_eq_some hbefore), rfl⟩

theorem normalizeRelationship_ok (hb : s.graph.Stored) (ha : (s.graph.apply latest).Stored)
    (htuple : ∀ (id : RelationshipId) record record', s.graph.relationships[id]? = some record →
      (s.graph.apply latest).relationships[id]? = some record' → record = record')
    (result : LayerBuilder) {e : RelationshipId × RelationshipDelta}
    (he : latest.relationships[e.1]? = some e.2) :
    normalizeRelationship s result e = .ok { result with
      relationships := insertSome result.relationships e.1 (relationshipBetween
        s.graph.relationships[e.1]? (s.graph.apply latest).relationships[e.1]?) } := by
  have hafter : (s.graph.apply latest).relationships[e.1]? = e.2.change := by
    rw [GraphState.relationships_apply, he]
    rfl
  unfold normalizeRelationship relationshipBetween
  rw [Snapshot.relationship_eq, hafter]
  cases hbefore : s.graph.relationships[e.1]? with
  | none =>
    cases hchange : e.2.change with
    | none => rfl
    | some record =>
      obtain ⟨hid, hpos⟩ := ha.relationships e.1 record (hafter.trans hchange)
      refine addRelationship_ok.mpr ⟨hpos, ?_⟩
      rw [hid]
      rfl
  | some record =>
    cases hchange : e.2.change with
    | none =>
      obtain ⟨hid, hpos⟩ := hb.relationships e.1 record hbefore
      refine removeRelationship_ok.mpr ⟨hpos, ?_⟩
      rw [hid]
      rfl
    | some record' =>
      rw [htuple e.1 record record' hbefore (hafter.trans hchange)]
      simp [insertSome]

theorem propertyStateChanged_ok {before after : Option PropertyValue}
    (hb : ∀ value, before = some value → ∃ bytes, value.canonicalBytes = .ok bytes)
    (ha : ∀ value, after = some value → ∃ bytes, value.canonicalBytes = .ok bytes) :
    ∃ changed, propertyStateChanged before after = .ok changed ∧
      (changed = true ↔ (propertyBetween before after).isSome) := by
  unfold propertyBetween propertyStateChanged
  cases before with
  | none => cases after <;> exact ⟨_, rfl, by simp⟩
  | some value =>
    cases after with
    | none => exact ⟨_, rfl, by simp⟩
    | some value' =>
      obtain ⟨changed, hchanged, hiff⟩ := propertyChanged_ok (hb value rfl) (ha value' rfl)
      refine ⟨changed, hchanged, hiff.trans ?_⟩
      by_cases hsame : SameValue value value'
      · simp [hsame]
      · simp [hsame]

theorem normalizeProperty_ok (hb : s.graph.Stored) (ha : (s.graph.apply latest).Stored)
    (result : LayerBuilder) {e : PropertySlot × PropertyDelta}
    (he : latest.properties[e.1]? = some e.2) :
    normalizeProperty s result e = .ok { result with
      properties := insertSome result.properties e.1 (propertyBetween
        s.graph.properties[e.1]? (s.graph.apply latest).properties[e.1]?) } := by
  have hafter : (s.graph.apply latest).properties[e.1]? = e.2.value := by
    rw [GraphState.properties_apply, he]
    rfl
  obtain ⟨changed, hchanged, hiff⟩ := propertyStateChanged_ok
    (fun value hvalue => (hb.properties e.1 value hvalue).2.2)
    (fun value hvalue => (ha.properties e.1 value hvalue).2.2)
  unfold normalizeProperty
  rw [Snapshot.property_eq, ← hafter, hchanged, ok_bind]
  cases hvalue : (s.graph.apply latest).properties[e.1]? with
  | none =>
    rw [hvalue] at hiff
    cases hbefore : s.graph.properties[e.1]? with
    | none =>
      rw [hbefore] at hiff
      have hno : changed = false := by simpa [propertyBetween] using hiff
      rw [hno]
      rfl
    | some value =>
      rw [hbefore] at hiff
      have hyes : changed = true := by simpa [propertyBetween] using hiff
      rw [hyes]
      exact removeProperty_ok.mpr ⟨(hb.properties e.1 value hbefore).1, rfl⟩
  | some value' =>
    have hset : result.setProperty e.1.1 e.1.2.1 e.1.2.2 value' = .ok { result with
        properties := insertSome result.properties e.1 (some ⟨.add, some value'⟩) } :=
      setProperty_ok.mpr ⟨(ha.properties e.1 value' hvalue).1, rfl⟩
    rw [hvalue] at hiff
    cases changed with
    | true =>
      have hbetween : propertyBetween s.graph.properties[e.1]? (some value') =
          some ⟨.add, some value'⟩ := by
        have hsome := hiff.mp rfl
        unfold propertyBetween at hsome ⊢
        cases hbefore : s.graph.properties[e.1]? with
        | none => rfl
        | some value =>
          rw [hbefore] at hsome
          by_cases hsame : SameValue value value'
          · simp [hsame] at hsome
          · simp [hsame]
      rw [hbetween]
      exact hset
    | false =>
      have hnone : propertyBetween s.graph.properties[e.1]? (some value') = none := by
        simpa using hiff
      rw [hnone]
      rfl

/-- **What is left of the words is the difference.** -/
theorem normalize_ok (hs : s.Formed) (hb : s.graph.Stored) (ha : (s.graph.apply latest).Stored)
    (htuple : ∀ (id : RelationshipId) record record', s.graph.relationships[id]? = some record →
      (s.graph.apply latest).relationships[id]? = some record' → record = record') :
    ∃ l, normalize s latest = .ok l ∧ l.Between s.graph (s.graph.apply latest) := by
  obtain ⟨nodes, hnodes, hn⟩ := touched_between (·.nodes) (fun l m => { l with nodes := m })
    (fun _ _ => rfl) (fun _ _ _ => rfl) (fun _ => rfl) existenceBetween
    (fun _ => by simp [existenceBetween])
    (fun id hid => by rw [GraphState.nodes_apply, hid]; rfl)
    (fun result e he => normalizeNode_ok hb ha result (lookup_of_mem he)) {} rfl
  obtain ⟨labels, hlabels, hl⟩ := touched_between (·.labels) (fun l m => { l with labels := m })
    (fun _ _ => rfl) (fun _ _ _ => rfl) (fun _ => rfl) existenceBetween
    (fun _ => by simp [existenceBetween])
    (fun row hrow => by rw [GraphState.labels_apply, hrow]; rfl)
    (fun result e he => normalizeLabel_ok hs hb ha result (lookup_of_mem he))
    { nodes } rfl
  obtain ⟨relationships, hrelationships, hr⟩ := touched_between (·.relationships)
    (fun l m => { l with relationships := m }) (fun _ _ => rfl) (fun _ _ _ => rfl) (fun _ => rfl)
    relationshipBetween (fun v => by cases v <;> rfl)
    (fun id hid => by rw [GraphState.relationships_apply, hid]; rfl)
    (fun result e he =>
      normalizeRelationship_ok hb ha htuple result (lookup_of_mem he))
    { nodes, labels } rfl
  obtain ⟨properties, hproperties, hp⟩ := touched_between (·.properties)
    (fun l m => { l with properties := m }) (fun _ _ => rfl) (fun _ _ _ => rfl) (fun _ => rfl)
    propertyBetween (fun v => by cases v <;> simp [propertyBetween, SameValue])
    (fun slot hslot => by rw [GraphState.properties_apply, hslot]; rfl)
    (fun result e he => normalizeProperty_ok hb ha result (lookup_of_mem he))
    { nodes, labels, relationships } rfl
  refine ⟨{ nodes, labels, relationships, properties }, ?_, between_of_lookups hn hl hr htuple hp⟩
  unfold normalize
  simp only [hnodes, ok_bind, hlabels, hrelationships, hproperties]

end LayerBuilder

/-! ## 3. The states of commits -/

variable {l : LayerBuilder} {bytes : Bytes} {g : GraphState} {ls : List LayerBuilder}

theorem LayerBuilder.value_hashed (h : l.hashedBytes = .ok bytes) {slot : PropertySlot}
    {delta : PropertyDelta} (hdelta : l.properties[slot]? = some delta) {v : PropertyValue}
    (hv : delta.value = some v) : ∃ bytes, v.canonicalBytes = .ok bytes := by
  obtain ⟨fields, hfields, _⟩ := bind_eq_ok.mp h
  obtain ⟨properties, hproperties, _⟩ := LayerBuilder.fields_ok hfields
  obtain ⟨record, hrecord⟩ := mapM_ok_of_mem hproperties (slot, delta)
    (mem_of_lookup hdelta)
  obtain ⟨value, hvalue, _⟩ := LayerBuilder.propertyRecordChecked_ok hrecord
  unfold LayerBuilder.valueBytes at hvalue
  rw [hv] at hvalue
  obtain ⟨bytes, hbytes, _⟩ := bind_eq_ok.mp hvalue
  exact ⟨bytes, hbytes⟩

/-- **A layer as it is stored leaves a state as it is read.** -/
theorem GraphState.stored_apply (hg : g.Stored) (hcanonical : g.Canonical) (hbuilt : l.Built)
    (h : l.hashedBytes = .ok bytes) :
    (g.apply l.canonical).Stored ∧ (g.apply l.canonical).Canonical := by
  have hproperty : ∀ (slot : PropertySlot) value,
      (g.apply l.canonical).properties[slot]? = some value →
        g.properties[slot]? = some value ∨ ∃ v delta, l.properties[slot]? = some delta ∧
          delta.value = some v ∧ v.canonical = value := by
    intro slot value hvalue
    have hmap : l.canonical.properties[slot]? =
        l.properties[slot]?.map PropertyDelta.canonical := ExtTreeMap.getElem?_map
    rw [GraphState.properties_apply, hmap] at hvalue
    cases hd : l.properties[slot]? with
    | none =>
      rw [hd] at hvalue
      exact Or.inl hvalue
    | some delta =>
      rw [hd] at hvalue
      obtain ⟨v, hv, hcanon⟩ := Option.map_eq_some_iff.mp
        (show delta.value.map PropertyValue.canonical = some value from hvalue)
      exact Or.inr ⟨v, delta, rfl, hv, hcanon⟩
  have hrange : ∀ {slot : PropertySlot} {delta : PropertyDelta} {v : PropertyValue},
      l.properties[slot]? = some delta → delta.value = some v →
        (0 < slot.2.1 ∧ 0 < slot.2.2) ∧ v.InRange := by
    intro slot delta v hdelta hv
    obtain ⟨howner, hkey, hdelta⟩ := hbuilt.properties slot delta hdelta
    rcases hdelta with ⟨_, v', hv', hrange⟩ | ⟨_, hnone⟩
    · rw [hv] at hv'
      cases hv'
      exact ⟨⟨howner.1, hkey.1⟩, hrange⟩
    · rw [hv] at hnone
      cases hnone
  refine ⟨⟨fun id hid => ?_, fun row hrow => ?_, fun id record hrecord => ?_,
    fun slot value hvalue => ?_⟩, fun slot value hvalue => ?_⟩
  · rcases GraphState.node_source hid with hop | hold
    · exact (hbuilt.nodes id _ hop).1
    · exact hg.nodes id hold
  · rcases GraphState.label_source hrow with hop | hold
    · exact ⟨(hbuilt.labels row _ hop).1.1, (hbuilt.labels row _ hop).2.1⟩
    · exact hg.labels row hold
  · rcases GraphState.relationship_source hrecord with ⟨delta, hdelta, _, rfl⟩ | hold
    · obtain ⟨hid, hrel, hsource, htype, htarget⟩ := hbuilt.relationships id delta hdelta
      exact ⟨hid, hrel.1, hsource.1, htype.1, htarget.1⟩
    · exact hg.relationships id record hold
  · rcases hproperty slot value hvalue with hold | ⟨v, delta, hdelta, hv, rfl⟩
    · exact hg.properties slot value hold
    · obtain ⟨hpos, hin⟩ := hrange hdelta hv
      obtain ⟨bytes, hbytes⟩ := LayerBuilder.value_hashed h hdelta hv
      exact ⟨hpos, inRange_canonical v hin, bytes, by rw [canonicalBytes_canonical, hbytes]⟩
  · rcases hproperty slot value hvalue with hold | ⟨v, delta, hdelta, hv, rfl⟩
    · exact hcanonical slot value hold
    · obtain ⟨bytes, hbytes⟩ := LayerBuilder.value_hashed h hdelta hv
      exact canonical_canonical (hrange hdelta hv).2 hbytes

/-- Each property of a graph can be written as an entry of a layer. -/
def GraphState.Hashable (g : GraphState) : Prop :=
  ∀ (slot : PropertySlot) value, g.properties[slot]? = some value →
    ∃ bytes, LayerBuilder.propertyRecordChecked slot ⟨.add, some value⟩ = .ok bytes

theorem GraphState.hashable_apply (hg : g.Hashable) (hbuilt : l.Built)
    (h : l.hashedBytes = .ok bytes) : (g.apply l.canonical).Hashable := by
  intro slot value hvalue
  have hmap : l.canonical.properties[slot]? =
      l.properties[slot]?.map PropertyDelta.canonical := ExtTreeMap.getElem?_map
  rw [GraphState.properties_apply, hmap] at hvalue
  cases hd : l.properties[slot]? with
  | none =>
    rw [hd] at hvalue
    exact hg slot value hvalue
  | some delta =>
    rw [hd] at hvalue
    have hsome : delta.canonical.value = some value := hvalue
    obtain ⟨fields, hfields, _⟩ := bind_eq_ok.mp h
    obtain ⟨properties, hproperties, _⟩ := LayerBuilder.fields_ok hfields
    obtain ⟨record, hrecord⟩ := mapM_ok_of_mem hproperties (slot, delta) (mem_of_lookup hd)
    refine ⟨record, ?_⟩
    rw [← LayerBuilder.propertyRecordChecked_canonical] at hrecord
    obtain ⟨v, hv, _⟩ := Option.map_eq_some_iff.mp
      (show delta.value.map PropertyValue.canonical = some value from hsome)
    have hadd : delta.canonical = ⟨.add, some value⟩ := by
      rcases (hbuilt.properties slot delta hd).2.2 with ⟨hop, _⟩ | ⟨_, hnone⟩
      · rw [← hsome, ← hop]
        rfl
      · rw [hv] at hnone
        cases hnone
    rw [← hadd]
    exact hrecord

/-- **A layer whose properties are those of a graph, or are taken away, can be written.** -/
theorem LayerBuilder.hashedBytes_of_hashable {g : GraphState} (hg : g.Hashable) {l : LayerBuilder}
    (hl : ∀ (slot : PropertySlot) delta, l.properties[slot]? = some delta →
      delta = ⟨.remove, none⟩ ∨ ∃ value, delta = ⟨.add, some value⟩ ∧
        g.properties[slot]? = some value) : ∃ bytes, l.hashedBytes = .ok bytes := by
  have hremove : ∀ slot : PropertySlot,
      ∃ bytes, propertyRecordChecked slot ⟨.remove, none⟩ = .ok bytes := by
    intro slot
    refine ⟨record "PROPERTY" (propertyFields slot ⟨.remove, none⟩ none), ?_⟩
    unfold propertyRecordChecked valueBytes
    unfold recordChecked
    rfl
  obtain ⟨properties, hproperties⟩ := mapM_total
    (f := fun e : PropertySlot × PropertyDelta => propertyRecordChecked e.1 e.2)
    (l := l.properties.toList) fun e he => by
      rcases hl e.1 e.2 (lookup_of_mem he) with hdelta | ⟨value, hdelta, hvalue⟩
      · rw [hdelta]
        exact hremove e.1
      · rw [hdelta]
        exact hg e.1 value hvalue
  unfold hashedBytes
  rw [fields_eq, hproperties]
  exact ⟨_, rfl⟩

theorem GraphState.stored_empty : GraphState.Stored {} := by
  refine ⟨?_, ?_, ?_, ?_⟩
  · intro id h
    simp at h
  · intro row h
    simp at h
  · intro id record h
    simp at h
  · intro slot value h
    simp at h

theorem GraphState.canonical_empty : GraphState.Canonical {} := by
  intro slot value h
  simp at h

theorem GraphState.Known.admissible {ids : Identities} {tuples : RelationshipTuples}
    (h : g.Known ids tuples) (hstable : Database.TuplesStable tuples) :
    g.Admissible ids tuples where
  nodes := h.nodes
  labels := h.labels
  relationships id record hrecord := by
    obtain ⟨_, _, hlt, htype, hmem⟩ := h.relationships id record hrecord
    exact ⟨hlt, htype, fun record' hmem' hid => hstable record' hmem' record hmem hid⟩
  properties := h.properties

namespace Database

variable {H : Type} [Ord H] [TransOrd H] [LawfulEqOrd H] [DecidableEq H] (x : Externals H)
  (db : Database H)

/-- The loop of `load_touched`, from a commit down to the base. -/
def loadTouchedFrom (base : H) : Nat → H → LayerBuilder → StorageResult LayerBuilder
  | 0, _, _ => .error lineageCycle
  | fuel + 1, current, latest =>
    if current = base then .ok latest
    else match db.commits[current]? with
      | none => .error (.constraint "Query returned no rows")
      | some row => do
        let latest ← (db.layerRows row.layerId).appendMetadata latest
        let latest ← (db.layerRows row.layerId).appendProperties latest
        match row.parent1 with
        | none =>
          .error (.corrupt "Commit is not a first-parent descendant of the requested base")
        | some parent => loadTouchedFrom base fuel parent latest

def loadTouched (base descendant : H) : StorageResult LayerBuilder :=
  db.loadTouchedFrom base (db.commits.size + 1) descendant {}

/-- `layer_between_commits_observed`. -/
def layerBetweenCommits (base descendant : H) : StorageResult LayerBuilder :=
  if base = descendant then .ok {}
  else do
    let latest ← db.loadTouched base descendant
    let state ← db.resolveState x base none
    LayerBuilder.normalize state.snapshot latest

/-- The second commit is the first parent of the first. -/
def FirstParent (commit parent : H) : Prop :=
  ∃ row, db.commits[commit]? = some row ∧ row.parent1 = some parent

variable {x db}

omit [LawfulEqOrd H] [DecidableEq H] in
theorem Lineage.stored {c : H} {ls : List LayerBuilder} (h : Lineage x db c ls) :
    (graphOf ls).Stored ∧ (graphOf ls).Canonical := by
  induction h with
  | root _ _ hstores =>
    obtain ⟨_, built, bytes, _, hbuilt, hbytes, _, rfl⟩ := hstores
    exact GraphState.stored_apply GraphState.stored_empty GraphState.canonical_empty hbuilt hbytes
  | child _ _ hstores _ ih =>
    obtain ⟨_, built, bytes, _, hbuilt, hbytes, _, rfl⟩ := hstores
    exact GraphState.stored_apply ih.1 ih.2 hbuilt hbytes

omit [LawfulEqOrd H] [DecidableEq H] in
theorem Lineage.hashable {c : H} (h : Lineage x db c ls) : (graphOf ls).Hashable := by
  have hempty : GraphState.Hashable {} := by
    intro slot value h
    simp at h
  induction h with
  | root _ _ hstores =>
    obtain ⟨_, built, bytes, _, hbuilt, hbytes, _, rfl⟩ := hstores
    exact GraphState.hashable_apply hempty hbuilt hbytes
  | child _ _ hstores _ ih =>
    obtain ⟨_, built, bytes, _, hbuilt, hbytes, _, rfl⟩ := hstores
    exact GraphState.hashable_apply ih hbuilt hbytes

omit [LawfulEqOrd H] [DecidableEq H] in
theorem Lineage.chain {d b : H} (h : Lineage x db d ls)
    (hchain : Relation.ReflTransGen db.FirstParent d b) : ∃ ls', Lineage x db b ls' := by
  induction hchain with
  | refl => exact ⟨ls, h⟩
  | tail _ hparent ih =>
    obtain ⟨ls', hls'⟩ := ih
    obtain ⟨row, hrow, hparent⟩ := hparent
    cases hls' with
    | root hrow' hnone _ =>
      rw [hrow] at hrow'
      cases hrow'
      rw [hparent] at hnone
      cases hnone
    | child hrow' hparent' _ hls =>
      rw [hrow] at hrow'
      cases hrow'
      rw [hparent] at hparent'
      cases hparent'
      exact ⟨_, hls⟩

/-- A layer whose relationships are rows of the database, under their ids. -/
def Recorded (db : Database H) (l : LayerBuilder) : Prop :=
  ∀ (id : RelationshipId) delta, l.relationships[id]? = some delta →
    delta.record.id = id ∧ delta.record ∈ db.tuples

omit [TransOrd H] [LawfulEqOrd H] [DecidableEq H] in
theorem Recorded.over {newer older : LayerBuilder} (h : Recorded db newer)
    (h' : Recorded db older) : Recorded db (newer.over older) := by
  intro id delta hdelta
  have hlook : (insertEntries older.relationships newer.relationships)[id]? = some delta := hdelta
  rw [getElem?_insertEntries] at hlook
  cases hnewer : newer.relationships[id]? with
  | none =>
    rw [hnewer] at hlook
    exact h' id delta hlook
  | some delta' =>
    rw [hnewer] at hlook
    exact h id delta (hnewer.trans hlook)

omit [LawfulEqOrd H] in
/-- **The words that are kept lead from the base to the descendant.** -/
theorem loadTouchedFrom_ok {b : H} {ls' : List LayerBuilder} (hb : Lineage x db b ls') {d : H}
    (h : Lineage x db d ls) (hchain : Relation.ReflTransGen db.FirstParent d b) :
    ∀ (fuel : Nat) (latest : LayerBuilder), ls.length ≤ fuel →
      ∃ t, db.loadTouchedFrom b fuel d latest = .ok t ∧
        (graphOf ls').apply t = (graphOf ls).apply latest ∧
        (Recorded db latest → Recorded db t) := by
  have hstop : ∀ {c : H} {ls : List LayerBuilder}, Lineage x db c ls → c = b → ∀ fuel latest,
      ∃ t, db.loadTouchedFrom b (fuel + 1) c latest = .ok t ∧
        (graphOf ls').apply t = (graphOf ls).apply latest ∧
        (Recorded db latest → Recorded db t) := by
    intro c ls hls hcb fuel latest
    subst hcb
    rw [hls.unique hb]
    refine ⟨latest, ?_, rfl, id⟩
    rw [loadTouchedFrom, if_pos rfl]
  induction h with
  | @root c row l hrow hparent hstores =>
    intro fuel latest hfuel
    obtain ⟨fuel, rfl⟩ := Nat.exists_eq_add_of_le' hfuel
    rcases Relation.ReflTransGen.cases_head hchain with hcb | ⟨parent, ⟨row', hrow', hsome⟩, _⟩
    · exact hstop (.root hrow hparent hstores) hcb fuel latest
    · rw [hrow] at hrow'
      cases hrow'
      rw [hparent] at hsome
      cases hsome
  | @child c parent row l ls hrow hparent hstores h ih =>
    intro fuel latest hfuel
    obtain ⟨fuel, rfl⟩ := Nat.exists_eq_add_of_le' hfuel
    rw [show fuel + (l :: ls).length = fuel + ls.length + 1 from rfl]
    by_cases hcb : c = b
    · exact hstop (.child hrow hparent hstores h) hcb _ latest
    · have hrest : Relation.ReflTransGen db.FirstParent parent b := by
        rcases Relation.ReflTransGen.cases_head hchain with heq | ⟨p, ⟨row', hrow', hsome⟩, hrest⟩
        · exact absurd heq hcb
        · rw [hrow] at hrow'
          cases hrow'
          rw [hparent] at hsome
          cases hsome
          exact hrest
      obtain ⟨hformed, htuples⟩ := stores_formed hstores
      obtain ⟨rows, built, bytes, hentry, hbuilt, _, hrows, rfl⟩ := hstores
      have hrowsOf : db.layerRows row.layerId = rows := by
        unfold layerRows
        rw [hentry]
        rfl
      obtain ⟨t, ht, hgraph, hrecorded⟩ := ih hrest (fuel + ls.length) (latest.over built.canonical)
        (Nat.le_add_left _ _)
      refine ⟨t, ?_, ?_, fun hlatest => hrecorded (hlatest.over fun id delta hdelta =>
        ⟨hformed.keyed id delta hdelta, htuples id delta hdelta⟩)⟩
      · obtain ⟨middle, hmetadata, hproperties⟩ :=
          bind_eq_ok.mp (LayerRows.append_persisted hbuilt hrows latest)
        rw [loadTouchedFrom, if_neg hcb]
        simp only [hrow, hrowsOf, hmetadata, ok_bind, hproperties, hparent]
        exact ht
      · rw [hgraph, GraphState.apply_over]
        rfl

theorem loadTouched_ok {b d : H} {ls' : List LayerBuilder} (hb : Lineage x db b ls')
    (h : Lineage x db d ls) (hchain : Relation.ReflTransGen db.FirstParent d b) :
    ∃ t, db.loadTouched b d = .ok t ∧ (graphOf ls').apply t = graphOf ls ∧ Recorded db t := by
  obtain ⟨t, ht, happly, hrecorded⟩ := loadTouchedFrom_ok hb h hchain (db.commits.size + 1) {}
    (Nat.le_succ_of_le h.length_le)
  exact ⟨t, ht, happly, hrecorded fun id delta hdelta => by simp at hdelta⟩

/-! ## 4. The smallest layer -/

/-- **What the layer between two states is**, for valid states and for the commits of a run. -/
structure MinimalLayer (x : Externals H) : Prop where
  /-- Between valid snapshots: it leads from the one to the other, mentions what differs and
      nothing else, is part of each layer that leads there, and passes the check of layers. Between
      states as they are read it leads there exactly. -/
  between : ∀ {s : IndexedSnapshot} {before after : GraphState} {ids : Identities}
    {tuples : RelationshipTuples}, s.Valid tuples → s.snapshot.loadState = .ok before →
      before.Stored → before.Admissible ids tuples →
      after.Stored → after.Consistent → after.Admissible ids tuples →
        ∃ l, LayerBuilder.layerBetween before after = .ok l ∧ (before.apply l).Same after ∧
          l.Between before after ∧
          (∀ l' : LayerBuilder, (before.apply l').Same after → l.Within l') ∧
          (before.Canonical → after.Canonical → before.apply l = after) ∧
          s.validateLayer l ids tuples = .ok ()
  /-- From a state to itself it is empty. -/
  self : ∀ {g : GraphState}, g.Stored → LayerBuilder.layerBetween g g = .ok {}
  /-- Over every run, each commit loads as such a snapshot, and the state it is loaded as is one as
      it is read. -/
  commits : ∀ {db : Database H} {c : H}, Reaches x db → db.commits.contains c = true →
    ∃ s g, db.resolveState x c none = .ok s ∧ s.snapshot.loadState = .ok g ∧ s.Valid db.tuples ∧
      g.Stored ∧ g.Consistent ∧ g.Admissible db.ids db.tuples ∧ g.Canonical
  /-- Over every run, from a commit on the first-parent chain of another the stored layers alone
      give the layer between the two states that are loaded. -/
  sparse : ∀ {db : Database H} {d b : H}, Reaches x db → db.commits.contains d = true →
    Relation.ReflTransGen db.FirstParent d b →
      ∃ sb sd before after l, db.resolveState x b none = .ok sb ∧
        sb.snapshot.loadState = .ok before ∧ db.resolveState x d none = .ok sd ∧
        sd.snapshot.loadState = .ok after ∧ db.layerBetweenCommits x b d = .ok l ∧
        LayerBuilder.layerBetween before after = .ok l

theorem tuple_kept {s : IndexedSnapshot} {after : GraphState} {ids : Identities}
    {tuples : RelationshipTuples} (hs : s.Valid tuples) (ha : after.Stored)
    (hk : after.Admissible ids tuples) (id : RelationshipId) (record record' : RelationshipRecord)
    (h : s.snapshot.graph.relationships[id]? = some record)
    (h' : after.relationships[id]? = some record') : record = record' := by
  refine (hk.relationships id record' h').2.2 record (hs.graphRows h) ?_
  rw [IndexedSnapshot.graph_keyed hs.sound id record h, (ha.relationships id record' h').1]

/-- **The layer from a state to itself is empty.** -/
theorem layerBetween_self (hg : g.Stored) : LayerBuilder.layerBetween g g = .ok {} := by
  obtain ⟨l, hl, hbetween⟩ := LayerBuilder.layerBetween_ok hg hg fun id record record' h h' =>
    Option.some.inj (h.symm.trans h')
  rw [hl, hbetween.of_self]

theorem Sound.load {db : Database H} (hs : Sound x db) {c : H} {row : CommitRow H}
    (hrow : db.commits[c]? = some row) :
    ∃ s ls, db.resolveState x c none = .ok s ∧ Lineage x db c ls ∧ s.snapshot.graph = graphOf ls ∧
      s.snapshot.loadState = .ok (graphOf ls) ∧ s.Valid db.tuples ∧
      (graphOf ls).Admissible db.ids db.tuples := by
  obtain ⟨s, ls, hresolve, hls, hgraph, hvalid, hknown, _⟩ := hs.resolve hrow none
  refine ⟨s, ls, hresolve, hls, hgraph, ?_, hvalid, hknown.admissible hs.stable⟩
  rw [Snapshot.loadState_eq hvalid.sound.formed (IndexedSnapshot.graph_keyed hvalid.sound), hgraph]

/-- **The stored layers alone give the layer between the states.** -/
theorem layerBetweenCommits_ok {db : Database H} (hs : Sound x db) {d b : H} {row : CommitRow H}
    (hrow : db.commits[d]? = some row) (hchain : Relation.ReflTransGen db.FirstParent d b) :
    ∃ sb sd before after l, db.resolveState x b none = .ok sb ∧
      sb.snapshot.loadState = .ok before ∧ db.resolveState x d none = .ok sd ∧
      sd.snapshot.loadState = .ok after ∧ db.layerBetweenCommits x b d = .ok l ∧
      LayerBuilder.layerBetween before after = .ok l := by
  obtain ⟨sd, ls, hresolve, hls, hgraph, hload, hvalid, hadmissible⟩ := hs.load hrow
  obtain ⟨ls', hls'⟩ := hls.chain hchain
  have hbase : ∃ row, db.commits[b]? = some row := by
    have hcommit := hls'.commit
    rw [ExtTreeMap.mem_keys, ExtTreeMap.mem_iff_isSome_getElem?] at hcommit
    exact Option.isSome_iff_exists.mp hcommit
  obtain ⟨row', hrow'⟩ := hbase
  obtain ⟨sb, ls'', hresolve', hls'', hgraph', hload', hvalid', _⟩ := hs.load hrow'
  rw [← hls'.unique hls''] at hgraph' hload'
  unfold layerBetweenCommits
  split
  · rename_i hbd
    subst hbd
    rw [hls.unique hls'] at hload
    exact ⟨sb, sd, _, _, {}, hresolve', hload', hresolve, hload, rfl,
      layerBetween_self hls'.stored.1⟩
  · obtain ⟨t, ht, happly, _⟩ := loadTouched_ok hls' hls hchain
    have hafter : sb.snapshot.graph.apply t = graphOf ls := by
      rw [hgraph', happly]
    have hstored : sb.snapshot.graph.Stored := by
      rw [hgraph']
      exact hls'.stored.1
    have hstored' : (sb.snapshot.graph.apply t).Stored := by
      rw [hafter]
      exact hls.stored.1
    have hkept : (sb.snapshot.graph.apply t).Admissible db.ids db.tuples := by
      rw [hafter]
      exact hadmissible
    obtain ⟨l, hnormal, hbetween⟩ := LayerBuilder.normalize_ok hvalid'.sound.formed hstored
      hstored' (tuple_kept hvalid' hstored' hkept)
    obtain ⟨l', hl', hbetween'⟩ := LayerBuilder.layerBetween_ok hstored hstored'
      (tuple_kept hvalid' hstored' hkept)
    refine ⟨sb, sd, _, _, l, hresolve', hload', hresolve, hload, ?_, ?_⟩
    · rw [ht, ok_bind, hresolve', ok_bind, hnormal]
    · rw [← hgraph', ← hafter, hl', hbetween'.unique hbetween]

/-- **The layer between two states is the smallest that leads from the one to the other**, whether
    it is made from the states or from the stored layers. -/
theorem minimalLayer (x : Externals H) : MinimalLayer x where
  between := by
    intro s before after ids tuples hs hload hb hbk ha hac hak
    have hgraph : before = s.snapshot.graph := by
      rw [Snapshot.loadState_eq hs.sound.formed (IndexedSnapshot.graph_keyed hs.sound)] at hload
      exact (Except.ok.inj hload).symm
    subst hgraph
    obtain ⟨l, hl, hbetween⟩ := LayerBuilder.layerBetween_ok hb ha (tuple_kept hs ha hak)
    refine ⟨l, hl, hbetween.applied, hbetween, fun l' hleads => hbetween.minimal hleads,
      fun hbc hacan => hbetween.apply_eq hb ha hbc hacan, ?_⟩
    exact (IndexedSnapshot.validateLayer_ok hs.sound (hbetween.formed hb ha)
      fun _ _ hrecord => hs.graphRows hrecord).mpr
        (hbetween.accepted hb hs.consistent hbk ha hac hak)
  self := layerBetween_self
  commits := by
    intro db c h hc
    rw [ExtTreeMap.contains_eq_isSome_getElem?] at hc
    obtain ⟨row, hrow⟩ := Option.isSome_iff_exists.mp hc
    obtain ⟨s, ls, hresolve, hls, hgraph, hload, hvalid, hadmissible⟩ := (sound_reaches h).load hrow
    exact ⟨s, graphOf ls, hresolve, hload, hvalid, hls.stored.1, hgraph ▸ hvalid.consistent,
      hadmissible, hls.stored.2⟩
  sparse := by
    intro db d b h hd hchain
    rw [ExtTreeMap.contains_eq_isSome_getElem?] at hd
    obtain ⟨row, hrow⟩ := Option.isSome_iff_exists.mp hd
    exact layerBetweenCommits_ok (sound_reaches h) hrow hchain

/-- From the root to the commit of node 1. -/
theorem minimalLayer_oneNode : ∃ l, oneNode.layerBetweenCommits digits 0 1 = .ok l ∧
    (∃ before after, LayerBuilder.layerBetween before after = .ok l) ∧ l = .ofNode 1 true := by
  have hchain : Relation.ReflTransGen oneNode.FirstParent (1 : Int) 0 :=
    .single ⟨⟨some 0, none, 2⟩, rfl, rfl⟩
  obtain ⟨_, _, before, after, l, _, _, _, _, hl, hbetween⟩ :=
    (minimalLayer digits).sparse oneNode_reached (show oneNode.commits.contains 1 = true from rfl)
      hchain
  have hlayer : oneNode.layerBetweenCommits digits 0 1 = .ok (.ofNode 1 true) := rfl
  refine ⟨l, hl, ⟨before, after, hbetween⟩, ?_⟩
  rw [hl] at hlayer
  exact Except.ok.inj hlayer

end Database

end Lithograph.Storage
