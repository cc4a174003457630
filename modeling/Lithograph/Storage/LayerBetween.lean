/-
  File:      Lithograph/Storage/LayerBetween.lean
  Subject:   The layer that leads from one state to another (`storage/version/state.rs`).

  A relationship keeps its tuple for life, so a state that gives one another tuple is refused.

  * `Between.accepted`: it passes the check of layers against the first state.
-/
import Lithograph.Library.Difference
import Lithograph.Storage.Invariants

namespace Lithograph.Storage

open Std Library

/-! ## 1. States -/

/-- `load_snapshot_state`, without the schema: the four streams, each into its set or map. -/
def Snapshot.loadState (s : Snapshot) : StorageResult GraphState := do
  let properties ← s.visitProperties
  pure { nodes := s.visitNodes.foldl (fun nodes node => nodes.insert node ()) ∅
         labels := s.visitLabels.foldl (fun labels row => labels.insert row ()) ∅
         relationships := s.visitRelationships.foldl (fun relationships record =>
           relationships.insert record.id record) ∅
         properties := properties.foldl (fun properties e => properties.insert e.1 e.2) ∅ }

/-- Two values with the same canonical bytes. -/
def SameValue (v v' : PropertyValue) : Prop := v.canonicalBytes = v'.canonicalBytes

/-- The error of a relationship with another tuple. -/
def changedTuple (id : RelationshipId) : StorageError :=
  .corrupt ("RelationshipId " ++ toString id ++ " changed immutable endpoints or type")

/-- `property_changed_checked`. -/
def propertyChanged (before after : PropertyValue) : StorageResult Bool := do
  let before ← before.canonicalBytes
  let after ← after.canonicalBytes
  pure (before != after)

namespace LayerBuilder

/-! ## 2. The layer between two states -/

/-- The visitor of a node that is in one state only. -/
def appendNode (layer : LayerBuilder) (e : NodeId × Bool) : StorageResult LayerBuilder :=
  if e.2 then layer.addNode e.1 else layer.removeNode e.1

/-- The visitor of a label that is in one state only. -/
def appendLabel (layer : LayerBuilder) (e : (NodeId × LabelId) × Bool) :
    StorageResult LayerBuilder :=
  if e.2 then layer.addLabel e.1.1 e.1.2 else layer.removeLabel e.1.1 e.1.2

def appendNodeLabelDelta (layer : LayerBuilder) (before after : GraphState) :
    StorageResult LayerBuilder := do
  let layer ← (setChanges before.nodes.keys after.nodes.keys).foldlM appendNode layer
  (setChanges before.labels.keys after.labels.keys).foldlM appendLabel layer

/-- A relationship of the first state. -/
def appendOldRelationship (after : GraphState) (layer : LayerBuilder)
    (e : RelationshipId × RelationshipRecord) : StorageResult LayerBuilder :=
  match after.relationships[e.1]? with
  | none => layer.removeRelationship e.2
  | some record => if record ≠ e.2 then .error (changedTuple e.1) else .ok layer

/-- A relationship of the second state. -/
def appendNewRelationship (before : GraphState) (layer : LayerBuilder)
    (e : RelationshipId × RelationshipRecord) : StorageResult LayerBuilder :=
  if before.relationships.contains e.1 then .ok layer else layer.addRelationship e.2

def appendRelationshipDelta (layer : LayerBuilder) (before after : GraphState) :
    StorageResult LayerBuilder := do
  let layer ← before.relationships.toList.foldlM (appendOldRelationship after) layer
  after.relationships.toList.foldlM (appendNewRelationship before) layer

/-- A property of the first state. -/
def appendOldProperty (after : GraphState) (layer : LayerBuilder)
    (e : PropertySlot × PropertyValue) : StorageResult LayerBuilder :=
  match after.properties[e.1]? with
  | none => layer.removeProperty e.1.1 e.1.2.1 e.1.2.2
  | some value => do
    let changed ← propertyChanged e.2 value
    if changed then layer.setProperty e.1.1 e.1.2.1 e.1.2.2 value else pure layer

/-- A property of the second state. -/
def appendNewProperty (before : GraphState) (layer : LayerBuilder)
    (e : PropertySlot × PropertyValue) : StorageResult LayerBuilder :=
  if before.properties.contains e.1 then .ok layer
  else layer.setProperty e.1.1 e.1.2.1 e.1.2.2 e.2

def appendPropertyDelta (layer : LayerBuilder) (before after : GraphState) :
    StorageResult LayerBuilder := do
  let layer ← before.properties.toList.foldlM (appendOldProperty after) layer
  after.properties.toList.foldlM (appendNewProperty before) layer

def layerBetween (before after : GraphState) : StorageResult LayerBuilder := do
  let layer : LayerBuilder := {}
  let layer ← layer.appendNodeLabelDelta before after
  let layer ← layer.appendRelationshipDelta before after
  layer.appendPropertyDelta before after

end LayerBuilder

variable {K V : Type}

theorem foldl_toList_insert [Ord K] [TransOrd K] [LawfulEqOrd K] [DecidableEq K]
    (m : ExtTreeMap K V) :
    m.toList.foldl (fun (filled : ExtTreeMap K V) e => filled.insert e.1 e.2) ∅ = m := by
  have h := insertEntries_empty m
  unfold insertEntries at h
  rwa [ExtTreeMap.foldl_eq_foldl_toList] at h

/-- **A state is what its snapshot shows.** -/
theorem Snapshot.loadState_eq {s : Snapshot} (hs : s.Formed)
    (hkeyed : KeyedRelationships s.graph.relationships) : s.loadState = .ok s.graph := by
  unfold Snapshot.loadState
  rw [Snapshot.visitProperties_eq hs, ok_bind, Snapshot.visitNodes_eq, Snapshot.visitLabels_eq,
    Snapshot.visitRelationships_eq, List.foldl_map, List.foldl_map, List.foldl_map]
  have hrelationships : s.graph.relationships.toList.foldl
      (fun (filled : ExtTreeMap RelationshipId RelationshipRecord) e =>
        filled.insert e.2.id e.2) ∅ = s.graph.relationships := by
    refine Eq.trans ?_ (foldl_toList_insert s.graph.relationships)
    refine List.foldl_ext _ _ _ fun filled e he => ?_
    rw [hkeyed e.1 e.2 (lookup_of_mem he)]
  have hnodes : s.graph.nodes.toList.foldl
      (fun (filled : ExtTreeMap NodeId Unit) e => filled.insert e.1 ()) ∅ = s.graph.nodes :=
    foldl_toList_insert s.graph.nodes
  have hlabels : s.graph.labels.toList.foldl
      (fun (filled : ExtTreeMap (NodeId × LabelId) Unit) e => filled.insert e.1 ()) ∅ =
        s.graph.labels := foldl_toList_insert s.graph.labels
  have hproperties := foldl_toList_insert s.graph.properties
  show Except.ok (GraphState.mk _ _ _ _) = _
  rw [hnodes, hlabels, hrelationships, hproperties]

/-! ## 3. Layers that are differences -/

/-- **A difference of two states**: for each kind of fact the changes are a difference; a removal
    names the tuple that was there. -/
structure LayerBuilder.Between (before after : GraphState) (l : LayerBuilder) : Prop where
  nodes : IsDifference Eq before.nodes after.nodes (l.nodes.map fun _ op => op.change)
  labels : IsDifference Eq before.labels after.labels (l.labels.map fun _ op => op.change)
  relationships : IsDifference Eq before.relationships after.relationships
    (l.relationships.map fun _ delta => delta.change)
  properties : IsDifference SameValue before.properties after.properties
    (l.properties.map fun _ delta => delta.value)
  removed : ∀ (id : RelationshipId) delta, l.relationships[id]? = some delta →
    delta.op = .remove → before.relationships[id]? = some delta.record
  values : ∀ (slot : PropertySlot) delta, l.properties[slot]? = some delta →
    (delta.op = .add ↔ delta.value.isSome)

/-- What the states of a database satisfy: positive identifiers, each relationship under its own,
    values with canonical bytes. -/
structure GraphState.Stored (g : GraphState) : Prop where
  nodes : ∀ (id : NodeId), g.nodes[id]?.isSome → 0 < id
  labels : ∀ (row : NodeId × LabelId), g.labels[row]?.isSome → 0 < row.1 ∧ 0 < row.2
  relationships : ∀ (id : RelationshipId) record, g.relationships[id]? = some record →
    record.id = id ∧ record.Positive
  properties : ∀ (slot : PropertySlot) value, g.properties[slot]? = some value →
    (0 < slot.2.1 ∧ 0 < slot.2.2) ∧ value.InRange ∧ ∃ bytes, value.canonicalBytes = .ok bytes

/-- Every value is in canonical form, as each value read from a database is. -/
def GraphState.Canonical (g : GraphState) : Prop :=
  ∀ (slot : PropertySlot) value, g.properties[slot]? = some value → value.canonical = value

/-- Two states that differ in no fact, their values up to canonical bytes. -/
structure GraphState.Same (g g' : GraphState) : Prop where
  nodes : g.nodes = g'.nodes
  labels : g.labels = g'.labels
  relationships : g.relationships = g'.relationships
  properties : ∀ slot : PropertySlot, Option.Rel SameValue g.properties[slot]? g'.properties[slot]?

/-- The slots of one layer are slots of another. -/
structure LayerBuilder.Within (l l' : LayerBuilder) : Prop where
  nodes : ∀ id : NodeId, l.nodes[id]?.isSome → l'.nodes[id]?.isSome
  labels : ∀ row : NodeId × LabelId, l.labels[row]?.isSome → l'.labels[row]?.isSome
  relationships : ∀ id : RelationshipId, l.relationships[id]?.isSome → l'.relationships[id]?.isSome
  properties : ∀ slot : PropertySlot, l.properties[slot]?.isSome → l'.properties[slot]?.isSome

theorem DeltaOp.change_inj {op op' : DeltaOp} (h : op.change = op'.change) : op = op' := by
  cases op <;> cases op' <;> first | rfl | cases h

theorem eq_of_sameValue {v v' : PropertyValue} {bytes : Bytes} (h : SameValue v v')
    (hrange : v.InRange) (hrange' : v'.InRange) (hbytes : v.canonicalBytes = .ok bytes)
    (hcanonical : v.canonical = v) (hcanonical' : v'.canonical = v') : v = v' := by
  have hbytes' : v'.canonicalBytes = .ok bytes := by rw [← hbytes]; exact h.symm
  have hread := fromCanonicalBytes_canonicalBytes v hrange hbytes
  rw [fromCanonicalBytes_canonicalBytes v' hrange' hbytes', hcanonical, hcanonical'] at hread
  exact (Except.ok.inj hread).symm

namespace LayerBuilder

variable {before after : GraphState} {l : LayerBuilder}

/-- **A difference leads to the other state.** -/
theorem Between.applied (h : l.Between before after) : (before.apply l).Same after where
  nodes := h.nodes.patch_eq
  labels := h.labels.patch_eq
  relationships := h.relationships.patch_eq
  properties := h.properties.patch fun _ => rfl

theorem Between.apply_eq (h : l.Between before after) (hb : before.Stored) (ha : after.Stored)
    (hbefore : before.Canonical) (hafter : after.Canonical) : before.apply l = after := by
  refine GraphState.ext_facts (fun id => ?_) (fun row => ?_) (fun id => ?_) (fun slot => ?_)
  · rw [h.applied.nodes]
  · rw [h.applied.labels]
  · rw [h.applied.relationships]
  · rw [GraphState.properties_apply]
    cases hd : l.properties[slot]? with
    | some delta =>
      have hchange : (l.properties.map fun _ (delta : PropertyDelta) => delta.value)[slot]? =
          some delta.value := by
        rw [ExtTreeMap.getElem?_map, hd]
        rfl
      exact (h.properties.changed slot delta.value hchange).1
    | none =>
      have hsilent : (l.properties.map fun _ (delta : PropertyDelta) => delta.value)[slot]? =
          none := by
        rw [ExtTreeMap.getElem?_map, hd]
        rfl
      have hrel := h.properties.kept slot hsilent
      show before.properties[slot]? = after.properties[slot]?
      cases hv : before.properties[slot]? with
      | none =>
        rw [hv] at hrel
        cases hv' : after.properties[slot]? with
        | none => rfl
        | some v' =>
          rw [hv'] at hrel
          cases hrel
      | some v =>
        rw [hv] at hrel
        cases hv' : after.properties[slot]? with
        | none =>
          rw [hv'] at hrel
          cases hrel
        | some v' =>
          rw [hv'] at hrel
          cases hrel with
          | some hsame =>
            obtain ⟨_, hrange, bytes, hbytes⟩ := hb.properties slot v hv
            obtain ⟨_, hrange', _⟩ := ha.properties slot v' hv'
            rw [eq_of_sameValue hsame hrange hrange' hbytes (hbefore slot v hv)
              (hafter slot v' hv')]

theorem rel_of_eq {a b : Option V} (h : a = b) : Option.Rel Eq a b := by
  subst h
  exact rel_refl (fun _ => rfl) a

/-- **It is the smallest layer that does.** -/
theorem Between.minimal (h : l.Between before after) {l' : LayerBuilder}
    (hleads : (before.apply l').Same after) : l.Within l' := by
  have hmap : ∀ {K D V : Type} [Ord K] [TransOrd K] [LawfulEqOrd K] {m : ExtTreeMap K D}
      {f : K → D → V} {k : K}, (m.map f)[k]?.isSome = m[k]?.isSome := by
    intro K D V _ _ _ m f k
    rw [ExtTreeMap.getElem?_map, Option.isSome_map]
  constructor
  · intro id hid
    rw [← hmap] at hid ⊢
    exact h.nodes.minimal (fun k => rel_of_eq (congrArg (fun m => m[k]?) hleads.nodes)) hid
  · intro row hrow
    rw [← hmap] at hrow ⊢
    exact h.labels.minimal (fun k => rel_of_eq (congrArg (fun m => m[k]?) hleads.labels)) hrow
  · intro id hid
    rw [← hmap] at hid ⊢
    exact h.relationships.minimal
      (fun k => rel_of_eq (congrArg (fun m => m[k]?) hleads.relationships)) hid
  · intro slot hslot
    rw [← hmap] at hslot ⊢
    exact h.properties.minimal hleads.properties hslot

/-- **There is one difference of two states.** -/
theorem Between.unique (h : l.Between before after) {l' : LayerBuilder}
    (h' : l'.Between before after) : l = l' := by
  have hnodes := h.nodes.unique h'.nodes
  have hlabels := h.labels.unique h'.labels
  have hrelationships := h.relationships.unique h'.relationships
  have hproperties := h.properties.unique h'.properties
  obtain ⟨nodes, labels, relationships, properties⟩ := l
  rw [LayerBuilder.mk.injEq]
  refine ⟨ExtTreeMap.ext_getElem? fun id => ?_, ExtTreeMap.ext_getElem? fun row => ?_,
    ExtTreeMap.ext_getElem? fun id => ?_, ExtTreeMap.ext_getElem? fun slot => ?_⟩
  · have hid := congrArg (fun m => m[id]?) hnodes
    simp only [ExtTreeMap.getElem?_map] at hid
    exact Option.map_injective (fun _ _ => DeltaOp.change_inj) hid
  · have hrow := congrArg (fun m => m[row]?) hlabels
    simp only [ExtTreeMap.getElem?_map] at hrow
    exact Option.map_injective (fun _ _ => DeltaOp.change_inj) hrow
  · have hid := congrArg (fun m => m[id]?) hrelationships
    simp only [ExtTreeMap.getElem?_map] at hid
    cases hd : relationships[id]? with
    | none =>
      rw [hd] at hid
      exact (Option.map_eq_none_iff.mp hid.symm).symm
    | some delta =>
      rw [hd] at hid
      obtain ⟨delta', hd', hchange⟩ := Option.map_eq_some_iff.mp hid.symm
      rw [hd']
      have hremoved := h.removed id delta hd
      have hremoved' := h'.removed id delta' hd'
      obtain ⟨op, record⟩ := delta
      obtain ⟨op', record'⟩ := delta'
      cases op <;> cases op'
      · cases hchange
        rfl
      · cases hchange
      · cases hchange
      · have hsame := (hremoved rfl).symm.trans (hremoved' rfl)
        cases hsame
        rfl
  · have hslot := congrArg (fun m => m[slot]?) hproperties
    simp only [ExtTreeMap.getElem?_map] at hslot
    cases hd : properties[slot]? with
    | none =>
      rw [hd] at hslot
      exact (Option.map_eq_none_iff.mp hslot.symm).symm
    | some delta =>
      rw [hd] at hslot
      obtain ⟨delta', hd', hvalue⟩ := Option.map_eq_some_iff.mp hslot.symm
      have hop := h.values slot delta hd
      have hop' := h'.values slot delta' hd'
      obtain ⟨op, value⟩ := delta
      obtain ⟨op', value'⟩ := delta'
      cases op <;> cases op' <;> simp_all

theorem Between.of_self (h : l.Between before before) : l = {} := by
  have hempty : ∀ {K D V : Type} [Ord K] [TransOrd K] [LawfulEqOrd K] {m : ExtTreeMap K D}
      {f : K → D → V}, m.map f = ∅ → m = ∅ := by
    intro K D V _ _ _ m f hm
    refine ExtTreeMap.ext_getElem? fun k => ?_
    have hk := congrArg (fun m => m[k]?) hm
    simpa using hk
  have hnodes := hempty (h.nodes.of_self fun _ => rfl)
  have hlabels := hempty (h.labels.of_self fun _ => rfl)
  have hrelationships := hempty (h.relationships.of_self fun _ => rfl)
  have hproperties := hempty (h.properties.of_self fun _ => rfl)
  obtain ⟨nodes, labels, relationships, properties⟩ := l
  simp only at hnodes hlabels hrelationships hproperties
  rw [hnodes, hlabels, hrelationships, hproperties]

/-! ## 4. The layer between two states is their difference -/

theorem appendNode_ok (e : NodeId × Bool) (h : 0 < e.1) (l : LayerBuilder) :
    l.appendNode e = .ok { l with nodes := insertSome l.nodes e.1 (some (existenceOp e.2)) } := by
  obtain ⟨id, added⟩ := e
  cases added with
  | true => exact addNode_ok.mpr ⟨h, rfl⟩
  | false => exact removeNode_ok.mpr ⟨h, rfl⟩

theorem appendLabel_ok (e : (NodeId × LabelId) × Bool) (h : 0 < e.1.1 ∧ 0 < e.1.2)
    (l : LayerBuilder) : l.appendLabel e =
      .ok { l with labels := insertSome l.labels e.1 (some (existenceOp e.2)) } := by
  obtain ⟨row, added⟩ := e
  cases added with
  | true => exact addLabel_ok.mpr ⟨h, rfl⟩
  | false => exact removeLabel_ok.mpr ⟨h, rfl⟩

/-- The change of a node or a label between two states. -/
def existenceBetween (before after : Option Unit) : Option DeltaOp :=
  if before.isSome = after.isSome then none else some (existenceOp after.isSome)

theorem lookup_setChanges [Ord K] [TransOrd K] [LawfulEqOrd K] {before after : ExtTreeMap K Unit}
    {m : ExtTreeMap K DeltaOp}
    (hm : ∀ k : K, (∀ added, (k, added) ∈ setChanges before.keys after.keys →
      m[k]? = some (existenceOp added)) ∧
        ((∀ added, (k, added) ∉ setChanges before.keys after.keys) → m[k]? = none)) (k : K) :
    m[k]? = existenceBetween before[k]? after[k]? := by
  have hmem : ∀ added : Bool, (k, added) ∈ setChanges before.keys after.keys ↔
      if added then after[k]?.isSome ∧ ¬ before[k]?.isSome
      else before[k]?.isSome ∧ ¬ after[k]?.isSome := by
    intro added
    rw [mem_setChanges ExtTreeMap.ordered_keys ExtTreeMap.ordered_keys]
    simp only [ExtTreeMap.mem_keys, ExtTreeMap.mem_iff_isSome_getElem?]
  unfold existenceBetween
  cases hb : before[k]? with
  | none =>
    cases ha : after[k]? with
    | none =>
      refine (hm k).2 fun added hin => ?_
      rw [hmem, hb, ha] at hin
      cases added <;> simp at hin
    | some _ => exact (hm k).1 true ((hmem true).mpr (by simp [hb, ha]))
  | some _ =>
    cases ha : after[k]? with
    | none => exact (hm k).1 false ((hmem false).mpr (by simp [hb, ha]))
    | some _ =>
      refine (hm k).2 fun added hin => ?_
      rw [hmem, hb, ha] at hin
      cases added <;> simp at hin

theorem existence_says : ∀ before after : Option Unit,
    Says Eq DeltaOp.change before after (existenceBetween before after)
  | none, none => .none
  | none, some _ => ⟨rfl, fun hrel => nomatch hrel⟩
  | some _, none => ⟨rfl, fun hrel => nomatch hrel⟩
  | some _, some _ => .some rfl

theorem ne_of_keyLt [Ord K] [TransOrd K] {l : List (K × V)} (h : l.Pairwise KeyLt) :
    l.Pairwise fun a b => a.1 ≠ b.1 := by
  refine h.imp fun {a b} hab heq => ?_
  unfold KeyLt at hab
  rw [heq] at hab
  exact compare_lt_irrefl _ hab

theorem appendChanges_ok [Ord K] [TransOrd K] [LawfulEqOrd K] [DecidableEq K]
    {before after : ExtTreeMap K Unit} {P : K → Prop} (hb : ∀ k : K, before[k]?.isSome → P k)
    (ha : ∀ k : K, after[k]?.isSome → P k) (get : LayerBuilder → ExtTreeMap K DeltaOp)
    (set : LayerBuilder → ExtTreeMap K DeltaOp → LayerBuilder) (hget : ∀ l m, get (set l m) = m)
    (hset : ∀ l m m', set (set l m) m' = set l m') (hself : ∀ l, set l (get l) = l)
    {append : LayerBuilder → K × Bool → StorageResult LayerBuilder}
    (happend : ∀ e, P e.1 → ∀ l,
      append l e = .ok (set l (insertSome (get l) e.1 (some (existenceOp e.2)))))
    {l : LayerBuilder} (hempty : get l = ∅) :
    ∃ m, (setChanges before.keys after.keys).foldlM append l = .ok (set l m) ∧
      ∀ k : K, m[k]? = existenceBetween before[k]? after[k]? := by
  have hsorted : (setChanges before.keys after.keys).Pairwise KeyLt :=
    setChanges_sorted ExtTreeMap.ordered_keys ExtTreeMap.ordered_keys
  have hP : ∀ e ∈ setChanges before.keys after.keys, P e.1 := by
    intro e he
    have hmem := (mem_setChanges ExtTreeMap.ordered_keys ExtTreeMap.ordered_keys e.1 e.2).mp he
    split at hmem
    · exact ha e.1 (ExtTreeMap.mem_iff_isSome_getElem?.mp (ExtTreeMap.mem_keys.mp hmem.1))
    · exact hb e.1 (ExtTreeMap.mem_iff_isSome_getElem?.mp (ExtTreeMap.mem_keys.mp hmem.1))
  obtain ⟨m, hfold, hm⟩ := list_foldlM_component get set hget hset hself
    (fun _ added => some (existenceOp added)) l (ne_of_keyLt hsorted)
    fun l e he => happend e (hP e he) l
  refine ⟨m, hfold, lookup_setChanges fun k => ⟨fun added hin => ?_, fun hout => ?_⟩⟩
  · rw [(hm k).1 added hin]
    rfl
  · rw [(hm k).2 hout, hempty]
    exact ExtTreeMap.getElem?_empty

/-- The change of a relationship between two states. -/
def relationshipBetween :
    Option RelationshipRecord → Option RelationshipRecord → Option RelationshipDelta
  | some record, none => some ⟨.remove, record⟩
  | none, some record => some ⟨.add, record⟩
  | _, _ => none

open Classical in
/-- The change of a property between two states. -/
noncomputable def propertyBetween :
    Option PropertyValue → Option PropertyValue → Option PropertyDelta
  | some _, none => some ⟨.remove, none⟩
  | none, some value => some ⟨.add, some value⟩
  | some value, some value' => if SameValue value value' then none else some ⟨.add, some value'⟩
  | none, none => none

theorem appendRelationshipDelta_ok (hb : before.Stored) (ha : after.Stored)
    (htuple : ∀ (id : RelationshipId) record record', before.relationships[id]? = some record →
      after.relationships[id]? = some record' → record = record') (l : LayerBuilder)
    (hempty : l.relationships = ∅) :
    ∃ m : ExtTreeMap RelationshipId RelationshipDelta,
      l.appendRelationshipDelta before after = .ok { l with relationships := m } ∧
      ∀ id : RelationshipId, m[id]? =
        relationshipBetween before.relationships[id]? after.relationships[id]? := by
  have hold : ∀ l : LayerBuilder, ∀ e ∈ before.relationships.toList,
      l.appendOldRelationship after e = .ok { l with
        relationships := insertSome l.relationships e.1
          (if after.relationships[e.1]? = none then some ⟨.remove, e.2⟩ else none) } := by
    intro l e he
    have hrecord := lookup_of_mem he
    obtain ⟨hid, hpos⟩ := hb.relationships e.1 e.2 hrecord
    unfold appendOldRelationship
    cases hafter : after.relationships[e.1]? with
    | none =>
      refine removeRelationship_ok.mpr ⟨hpos, ?_⟩
      rw [hid]
      rfl
    | some record =>
      rw [htuple e.1 e.2 record hrecord hafter]
      simp [insertSome]
  have hnew : ∀ l : LayerBuilder, ∀ e ∈ after.relationships.toList,
      l.appendNewRelationship before e = .ok { l with
        relationships := insertSome l.relationships e.1
          (if before.relationships[e.1]? = none then some ⟨.add, e.2⟩ else none) } := by
    intro l e he
    obtain ⟨hid, hpos⟩ := ha.relationships e.1 e.2 (lookup_of_mem he)
    unfold appendNewRelationship
    rw [ExtTreeMap.contains_eq_isSome_getElem?]
    cases hbefore : before.relationships[e.1]? with
    | none =>
      refine addRelationship_ok.mpr ⟨hpos, ?_⟩
      rw [hid]
      rfl
    | some record => simp [insertSome]
  obtain ⟨m, hfold, hm⟩ := list_foldlM_components (fun l : LayerBuilder => l.relationships)
    (fun l m => { l with relationships := m }) (fun _ _ => rfl) (fun _ _ _ => rfl) (fun _ => rfl)
    (fun id record => if after.relationships[id]? = none then some ⟨.remove, record⟩ else none)
    (fun id record => if before.relationships[id]? = none then some ⟨.add, record⟩ else none)
    (appendOldRelationship after) (appendNewRelationship before) before.relationships
    after.relationships l hold hnew
  refine ⟨m, hfold, fun id => ?_⟩
  rw [hm id]
  unfold relationshipBetween
  cases before.relationships[id]? with
  | none => cases after.relationships[id]? <;> simp [hempty]
  | some record => cases after.relationships[id]? <;> simp [hempty]

theorem propertyChanged_ok {v v' : PropertyValue} (hv : ∃ bytes, v.canonicalBytes = .ok bytes)
    (hv' : ∃ bytes, v'.canonicalBytes = .ok bytes) :
    ∃ changed, propertyChanged v v' = .ok changed ∧ (changed = true ↔ ¬ SameValue v v') := by
  obtain ⟨bytes, hbytes⟩ := hv
  obtain ⟨bytes', hbytes'⟩ := hv'
  refine ⟨bytes != bytes', ?_, ?_⟩
  · unfold propertyChanged
    rw [hbytes, ok_bind, hbytes']
    rfl
  · unfold SameValue
    rw [hbytes, hbytes', bne_iff_ne, ne_eq, Except.ok.injEq]

theorem appendPropertyDelta_ok (hb : before.Stored) (ha : after.Stored) (l : LayerBuilder)
    (hempty : l.properties = ∅) :
    ∃ m : ExtTreeMap PropertySlot PropertyDelta,
      l.appendPropertyDelta before after = .ok { l with properties := m } ∧
      ∀ slot : PropertySlot, m[slot]? =
        propertyBetween before.properties[slot]? after.properties[slot]? := by
  have hold : ∀ l : LayerBuilder, ∀ e ∈ before.properties.toList,
      l.appendOldProperty after e = .ok { l with
        properties := insertSome l.properties e.1
          (propertyBetween (some e.2) after.properties[e.1]?) } := by
    intro l e he
    obtain ⟨hpos, _, hbytes⟩ := hb.properties e.1 e.2 (lookup_of_mem he)
    unfold appendOldProperty propertyBetween
    cases hafter : after.properties[e.1]? with
    | none => exact removeProperty_ok.mpr ⟨hpos, rfl⟩
    | some value =>
      obtain ⟨changed, hchanged, hiff⟩ :=
        propertyChanged_ok hbytes (ha.properties e.1 value hafter).2.2
      simp only [hchanged, ok_bind]
      cases changed with
      | true =>
        rw [if_pos rfl, if_neg (hiff.mp rfl)]
        exact setProperty_ok.mpr ⟨hpos, rfl⟩
      | false =>
        have hsame : SameValue e.2 value := by
          by_contra hne
          cases hiff.mpr hne
        rw [if_pos hsame]
        rfl
  have hnew : ∀ l : LayerBuilder, ∀ e ∈ after.properties.toList,
      l.appendNewProperty before e = .ok { l with
        properties := insertSome l.properties e.1
          (if before.properties[e.1]? = none then some ⟨.add, some e.2⟩ else none) } := by
    intro l e he
    obtain ⟨hpos, _, _⟩ := ha.properties e.1 e.2 (lookup_of_mem he)
    unfold appendNewProperty
    rw [ExtTreeMap.contains_eq_isSome_getElem?]
    cases hbefore : before.properties[e.1]? with
    | none => exact setProperty_ok.mpr ⟨hpos, rfl⟩
    | some value => simp [insertSome]
  obtain ⟨m, hfold, hm⟩ := list_foldlM_components (fun l : LayerBuilder => l.properties)
    (fun l m => { l with properties := m }) (fun _ _ => rfl) (fun _ _ _ => rfl) (fun _ => rfl)
    (fun slot value => propertyBetween (some value) after.properties[slot]?)
    (fun slot value => if before.properties[slot]? = none then some ⟨.add, some value⟩ else none)
    (appendOldProperty after) (appendNewProperty before) before.properties after.properties l
    hold hnew
  refine ⟨m, hfold, fun slot => ?_⟩
  rw [hm slot]
  cases before.properties[slot]? with
  | none => cases after.properties[slot]? <;> simp [hempty, propertyBetween]
  | some value => cases after.properties[slot]? <;> simp [hempty]

/-- **Changes of each kind of fact make a difference.** -/
theorem relationship_says : ∀ {before after : Option RelationshipRecord},
    (∀ record record', before = some record → after = some record' → record = record') →
      Says Eq RelationshipDelta.change before after (relationshipBetween before after)
  | none, none, _ => .none
  | none, some _, _ => ⟨rfl, fun hrel => nomatch hrel⟩
  | some _, none, _ => ⟨rfl, fun hrel => nomatch hrel⟩
  | some record, some record', htuple => .some (htuple record record' rfl rfl)

theorem relationshipBetween_removed : ∀ {before after : Option RelationshipRecord}
    {delta : RelationshipDelta}, relationshipBetween before after = some delta →
      delta.op = .remove → before = some delta.record
  | none, some _, _, h, hop => by
    cases h
    cases hop
  | some _, none, _, h, _ => by
    cases h
    rfl
  | none, none, _, h, _ => nomatch h
  | some _, some _, _, h, _ => nomatch h

theorem property_says : ∀ before after : Option PropertyValue,
    Says SameValue PropertyDelta.value before after (propertyBetween before after)
  | none, none => .none
  | none, some _ => ⟨rfl, fun hrel => nomatch hrel⟩
  | some _, none => ⟨rfl, fun hrel => nomatch hrel⟩
  | some value, some value' => by
    by_cases hsame : SameValue value value'
    · have hbetween : propertyBetween (some value) (some value') = none := if_pos hsame
      rw [hbetween]
      exact .some hsame
    · have hbetween : propertyBetween (some value) (some value') = some ⟨.add, some value'⟩ :=
        if_neg hsame
      rw [hbetween]
      exact ⟨rfl, fun hrel => by cases hrel with | some h => exact hsame h⟩

theorem between_of_lookups {nodes : ExtTreeMap NodeId DeltaOp}
    {labels : ExtTreeMap (NodeId × LabelId) DeltaOp}
    {relationships : ExtTreeMap RelationshipId RelationshipDelta}
    {properties : ExtTreeMap PropertySlot PropertyDelta}
    (hn : ∀ id : NodeId, nodes[id]? = existenceBetween before.nodes[id]? after.nodes[id]?)
    (hl : ∀ row : NodeId × LabelId,
      labels[row]? = existenceBetween before.labels[row]? after.labels[row]?)
    (hr : ∀ id : RelationshipId, relationships[id]? =
      relationshipBetween before.relationships[id]? after.relationships[id]?)
    (htuple : ∀ (id : RelationshipId) record record', before.relationships[id]? = some record →
      after.relationships[id]? = some record' → record = record')
    (hp : ∀ slot : PropertySlot, properties[slot]? =
      propertyBetween before.properties[slot]? after.properties[slot]?) :
    Between before after { nodes, labels, relationships, properties } := by
  refine ⟨Says.isDifference fun id => ?_, Says.isDifference fun row => ?_,
    Says.isDifference fun id => ?_, Says.isDifference fun slot => ?_,
    fun id delta hdelta hop => ?_, fun slot delta hdelta => ?_⟩
  · rw [hn id]
    exact existence_says _ _
  · rw [hl row]
    exact existence_says _ _
  · rw [hr id]
    exact relationship_says (htuple id)
  · rw [hp slot]
    exact property_says _ _
  · exact relationshipBetween_removed ((hr id).symm.trans hdelta) hop
  · have hlook := (hp slot).symm.trans hdelta
    unfold propertyBetween at hlook
    split at hlook
    · cases hlook
      simp
    · cases hlook
      simp
    · split at hlook
      · cases hlook
      · cases hlook
        simp
    · cases hlook

/-- **The layer between two states is their difference.** -/
theorem layerBetween_ok (hb : before.Stored) (ha : after.Stored)
    (htuple : ∀ (id : RelationshipId) record record', before.relationships[id]? = some record →
      after.relationships[id]? = some record' → record = record') :
    ∃ l, layerBetween before after = .ok l ∧ l.Between before after := by
  obtain ⟨nodes, hnodes, hn⟩ := @appendChanges_ok _ _ _ _ _ before.nodes after.nodes _ hb.nodes
    ha.nodes LayerBuilder.nodes (fun l m => { l with nodes := m }) (fun _ _ => rfl)
    (fun _ _ _ => rfl) (fun _ => rfl) _ appendNode_ok {} rfl
  obtain ⟨labels, hlabels, hl⟩ := @appendChanges_ok _ _ _ _ _ before.labels after.labels _ hb.labels
    ha.labels LayerBuilder.labels (fun l m => { l with labels := m }) (fun _ _ => rfl)
    (fun _ _ _ => rfl) (fun _ => rfl) _ appendLabel_ok { nodes } rfl
  obtain ⟨relationships, hrelationships, hr⟩ :=
    appendRelationshipDelta_ok hb ha htuple { nodes, labels } rfl
  obtain ⟨properties, hproperties, hp⟩ :=
    appendPropertyDelta_ok hb ha { nodes, labels, relationships } rfl
  refine ⟨{ nodes, labels, relationships, properties }, ?_, between_of_lookups hn hl hr htuple hp⟩
  unfold layerBetween appendNodeLabelDelta
  simp only [hnodes, ok_bind, hlabels, hrelationships, hproperties]

/-! ## 5. The check of layers passes -/

theorem changed_cases {D : Type} [Ord K] [TransOrd K] [LawfulEqOrd K] {same : V → V → Prop}
    {before after : ExtTreeMap K V} {m : ExtTreeMap K D} {value : D → Option V}
    (h : IsDifference same before after (m.map fun _ (d : D) => value d)) {k : K} {d : D}
    (hd : m[k]? = some d) : after[k]? = value d ∧ (value d = none → before[k]?.isSome) := by
  have hc : (m.map fun _ (d : D) => value d)[k]? = some (value d) := by
    rw [ExtTreeMap.getElem?_map, hd]
    rfl
  obtain ⟨hafter, hrel⟩ := h.changed k _ hc
  refine ⟨hafter.symm, fun hnone => ?_⟩
  rw [← hafter, hnone] at hrel
  cases hb : before[k]? with
  | none =>
    rw [hb] at hrel
    exact absurd Option.Rel.none hrel
  | some v => rfl

theorem Between.relationship_state (h : l.Between before after) {id : RelationshipId}
    {delta : RelationshipDelta} (hdelta : l.relationships[id]? = some delta) :
    (delta.op = .add ∧ after.relationships[id]? = some delta.record) ∨
      (delta.op = .remove ∧ after.relationships[id]? = none ∧
        before.relationships[id]? = some delta.record) := by
  obtain ⟨hafter, _⟩ := changed_cases h.relationships hdelta
  cases hop : delta.op with
  | add =>
    exact Or.inl ⟨rfl, hafter.trans (RelationshipDelta.change_some.mpr ⟨hop, rfl⟩)⟩
  | remove =>
    refine Or.inr ⟨rfl, hafter.trans ?_, h.removed id delta hdelta hop⟩
    unfold RelationshipDelta.change
    simp [hop]

theorem Between.formed (h : l.Between before after) (hb : before.Stored) (ha : after.Stored) :
    l.Formed := by
  refine ⟨fun row op hop => ?_, fun id delta hdelta => ?_, fun slot delta hdelta => ?_, h.values⟩
  · obtain ⟨hafter, hbefore⟩ := changed_cases h.labels hop
    cases op with
    | add => exact (ha.labels row (Option.isSome_of_eq_some hafter)).2
    | remove => exact (hb.labels row (hbefore rfl)).2
  · rcases h.relationship_state hdelta with ⟨_, hafter⟩ | ⟨_, _, hbefore⟩
    · exact (ha.relationships id delta.record hafter).1
    · exact (hb.relationships id delta.record hbefore).1
  · obtain ⟨hafter, hbefore⟩ := changed_cases h.properties hdelta
    cases hvalue : delta.value with
    | some value =>
      rw [hvalue] at hafter
      exact (ha.properties slot value hafter).1.2
    | none =>
      obtain ⟨value, hold⟩ := Option.isSome_iff_exists.mp (hbefore hvalue)
      exact (hb.properties slot value hold).1.2

end LayerBuilder

/-- The identifiers of a state are known to a database, and no stored row says otherwise of a
    relationship of it. -/
structure GraphState.Admissible (g : GraphState) (ids : Identities) (tuples : RelationshipTuples) :
    Prop where
  nodes : ∀ (id : NodeId), g.nodes[id]?.isSome → 0 < id ∧ id < ids.nextNode
  labels : ∀ (row : NodeId × LabelId), g.labels[row]?.isSome → (ids.labels.nameOf row.2).isSome
  relationships : ∀ (id : RelationshipId) record, g.relationships[id]? = some record →
    id < ids.nextRelationship ∧ (ids.relationshipTypes.nameOf record.typeId).isSome ∧
      ∀ record' ∈ tuples, record'.id = record.id → record' = record
  properties : ∀ (slot : PropertySlot) value, g.properties[slot]? = some value →
    (ids.propertyKeys.nameOf slot.2.2).isSome

theorem GraphState.owner_allocated {g : GraphState} {ids : Identities}
    {tuples : RelationshipTuples} (hg : g.Consistent) (hs : g.Stored)
    (ha : g.Admissible ids tuples) {slot : PropertySlot} {value : PropertyValue}
    (h : g.properties[slot]? = some value) :
    match slot.1 with
    | .node => 0 < slot.2.1 ∧ slot.2.1 < ids.nextNode
    | .relationship => 0 < slot.2.1 ∧ slot.2.1 < ids.nextRelationship := by
  have howner := hg.owners slot value h
  obtain ⟨kind, owner, key⟩ := slot
  cases kind with
  | node => exact ha.nodes owner howner
  | relationship =>
    obtain ⟨record, hrecord⟩ := Option.isSome_iff_exists.mp howner
    obtain ⟨hid, hpos⟩ := hs.relationships owner record hrecord
    exact ⟨hid ▸ hpos.1, (ha.relationships owner record hrecord).1⟩

/-- **A difference passes the check of layers.** -/
theorem LayerBuilder.Between.accepted {before after : GraphState} {l : LayerBuilder}
    (h : l.Between before after) {ids : Identities} {tuples : RelationshipTuples}
    (hb : before.Stored) (hbc : before.Consistent) (hbk : before.Admissible ids tuples)
    (ha : after.Stored) (hac : after.Consistent) (hak : after.Admissible ids tuples) :
    Accepted ids tuples before l := by
  have hleads := h.applied
  have hrecord : ∀ {g : GraphState}, g.Stored → g.Consistent → g.Admissible ids tuples →
      ∀ (id : RelationshipId) record, g.relationships[id]? = some record →
        (ids.relationshipTypes.nameOf record.typeId).isSome ∧
          (0 < record.id ∧ record.id < ids.nextRelationship) ∧
          (0 < record.source ∧ record.source < ids.nextNode) ∧
          (0 < record.target ∧ record.target < ids.nextNode) ∧
          ∀ record' ∈ tuples, record'.id = record.id → record' = record := by
    intro g hs hc hk id record hrecord
    obtain ⟨hid, hpos⟩ := hs.relationships id record hrecord
    obtain ⟨hlt, htype, hstable⟩ := hk.relationships id record hrecord
    obtain ⟨hsource, htarget⟩ := hc.endpoints id record hrecord
    exact ⟨htype, ⟨hpos.1, hid ▸ hlt⟩, hk.nodes _ hsource, hk.nodes _ htarget, hstable⟩
  have hproperty : ∀ slot : PropertySlot, after.properties[slot]? = none →
      (before.apply l).properties[slot]? = none := by
    intro slot hnone
    have hrel := hleads.properties slot
    rw [hnone] at hrel
    cases hv : (before.apply l).properties[slot]? with
    | none => rfl
    | some value =>
      rw [hv] at hrel
      cases hrel
  constructor
  · intro id op hop
    obtain ⟨hafter, hbefore⟩ := changed_cases h.nodes hop
    cases op with
    | add => exact hak.nodes id (by rw [hafter]; rfl)
    | remove => exact hbk.nodes id (hbefore rfl)
  · intro row op hop
    obtain ⟨hafter, hbefore⟩ := changed_cases h.labels hop
    rw [hleads.nodes]
    cases op with
    | add =>
      have hrow : after.labels[row]?.isSome := by
        rw [hafter]
        rfl
      exact ⟨hak.labels row hrow, hak.nodes _ (hac.labels row hrow),
        fun _ => hac.labels row hrow⟩
    | remove =>
      have hrow := hbefore rfl
      exact ⟨hbk.labels row hrow, hbk.nodes _ (hbc.labels row hrow), fun hadd => by cases hadd⟩
  · intro id delta hdelta
    rcases h.relationship_state hdelta with ⟨_, hafter⟩ | ⟨_, _, hbefore⟩
    · exact hrecord ha hac hak id delta.record hafter
    · exact hrecord hb hbc hbk id delta.record hbefore
  · intro id delta hdelta hop
    rw [hleads.nodes]
    rcases h.relationship_state hdelta with ⟨_, hafter⟩ | ⟨hremove, _⟩
    · exact hac.endpoints id delta.record hafter
    · rw [hop] at hremove
      cases hremove
  · intro id delta hdelta hop key
    rcases h.relationship_state hdelta with ⟨hadd, _⟩ | ⟨_, hnone, _⟩
    · rw [hop] at hadd
      cases hadd
    · refine hproperty _ ?_
      cases hv : after.properties[(OwnerKind.relationship, id, key)]? with
      | none => rfl
      | some value =>
        have howner : after.relationships[id]?.isSome := hac.owners _ value hv
        rw [hnone] at howner
        cases howner
  · intro slot delta hdelta
    obtain ⟨hafter, hbefore⟩ := changed_cases h.properties hdelta
    have howner : ∀ {value}, after.properties[slot]? = some value →
        (before.apply l).ownerExists slot.1 slot.2.1 = true := by
      intro value hvalue
      have hexists := hac.owners slot value hvalue
      unfold GraphState.ownerExists at hexists ⊢
      rw [hleads.nodes, hleads.relationships]
      exact hexists
    cases hvalue : delta.value with
    | some value =>
      rw [hvalue] at hafter
      exact ⟨hak.properties slot value hafter, GraphState.owner_allocated hac ha hak hafter,
        fun _ => howner hafter⟩
    | none =>
      obtain ⟨value, hold⟩ := Option.isSome_iff_exists.mp (hbefore hvalue)
      refine ⟨hbk.properties slot value hold, GraphState.owner_allocated hbc hb hbk hold,
        fun hop => ?_⟩
      have hsome := (h.values slot delta hdelta).mp hop
      rw [hvalue] at hsome
      cases hsome
  · intro id hop
    obtain ⟨hafter, _⟩ := changed_cases h.nodes hop
    have hgone : after.nodes[id]? = none := hafter
    have hmissing : ∀ {node : NodeId}, after.nodes[node]?.isSome → node ≠ id := by
      intro node hnode heq
      rw [heq, hgone] at hnode
      cases hnode
    refine ⟨fun rel record hrel => ?_, fun label => ?_, fun key => ?_⟩
    · rw [hleads.relationships] at hrel
      obtain ⟨hsource, htarget⟩ := hac.endpoints rel record hrel
      exact ⟨hmissing hsource, hmissing htarget⟩
    · rw [hleads.labels]
      cases hrow : after.labels[(id, label)]? with
      | none => rfl
      | some u =>
        exact absurd rfl (hmissing (hac.labels (id, label) (Option.isSome_of_eq_some hrow)))
    · refine hproperty _ ?_
      cases hv : after.properties[(OwnerKind.node, id, key)]? with
      | none => rfl
      | some value => exact absurd rfl (hmissing (hac.owners _ value hv))

end Lithograph.Storage
