/-
  File:      Lithograph/Version/Access.lean
  Subject:   Write restrictions on a change from one commit to another (`query/version/access.rs`).

  A change is judged from the slots that the first-parent chains touch, or those of the layer; no
  snapshot is compared whole. What may change is said once (`Permitted`).

  * **`writeRestrictions_exact`**: over every run, both checks pass exactly where the change is
    permitted.
-/
import Lithograph.Library.Verdict
import Lithograph.Query.Access
import Lithograph.Storage.SchemaBlob
import Lithograph.Storage.SparseLayer
import Lithograph.Version.BranchProtocol
import Lithograph.Storage.OverlayViews

namespace Lithograph.Version

open Std Library Storage Query

/-- `WriteAccess`, with the switch that only version operations read here. -/
structure WritePolicy extends WriteAccess where
  allowSchemaChanges : Bool := true

/-! ## 1. The checks -/

def require (allowed : Bool) (permission : String) : QueryResult Unit :=
  if allowed then .ok ()
  else .error (.accessDenied (permission ++ "=false forbids this operation"))

section Checks

variable (policy : WritePolicy)

def unrestrictedGraphWrites : Bool :=
  policy.properties.isEmpty && policy.allowCreate && policy.allowDelete &&
    policy.allowLabelChanges && policy.allowSchemaChanges

def checkEntityChange (added : Bool) : QueryResult Unit :=
  if added then require policy.allowCreate "writeAccess.allowCreate"
  else require policy.allowDelete "writeAccess.allowDelete"

def ownerExists (s : Snapshot) (owner : OwnerKind) (id : Int) : Bool :=
  match owner with
  | .node => s.nodeExists id
  | .relationship => (s.relationship id).isSome

/-- `same_property_value_controlled`. -/
def samePropertyValue (left right : Option PropertyValue) : StorageResult Bool :=
  match left, right with
  | some left, some right => do
    let left ← left.canonicalBytes
    let right ← right.canonicalBytes
    pure (left == right)
  | left, right => .ok (left.isNone && right.isNone)

def samePropertyState (before after : Snapshot) (slot : PropertySlot) : StorageResult Bool :=
  samePropertyValue (before.property slot) (after.property slot)

/-- One label of the second snapshot: it must be there to be taken out. -/
def removeLabel (state : Bool × ExtTreeMap LabelId Unit) (label : LabelId) :
    Bool × ExtTreeMap LabelId Unit :=
  (state.1 && state.2.contains label, state.2.erase label)

def sameLabels (before after : Snapshot) (node : NodeId) : Bool :=
  let labels := (before.visitNodeLabels node).foldl (fun labels label => labels.insert label ()) ∅
  let (equal, labels) := (after.visitNodeLabels node).foldl removeLabel (true, labels)
  equal && labels.isEmpty

def checkTouchedLabels (before after : Snapshot) (touched : LayerBuilder) : QueryResult Unit :=
  if policy.allowLabelChanges then .ok ()
  else touched.labels.toList.forM fun e =>
    if after.nodeExists e.1.1 && !sameLabels before after e.1.1 then
      require false "writeAccess.allowLabelChanges"
    else .ok ()

def checkTouchedEntities (before after : Snapshot) (touched : LayerBuilder) : QueryResult Unit := do
  touched.nodes.toList.forM fun e =>
    let wasPresent := before.nodeExists e.1
    let isPresent := after.nodeExists e.1
    if wasPresent != isPresent then checkEntityChange policy isPresent else .ok ()
  touched.relationships.toList.forM fun e =>
    let wasPresent := (before.relationship e.2.record.id).isSome
    let isPresent := (after.relationship e.2.record.id).isSome
    if wasPresent != isPresent then checkEntityChange policy isPresent else .ok ()
  checkTouchedLabels policy before after touched

def checkTouchedProperties (ids : Identities) (before after : Snapshot) (touched : LayerBuilder) :
    QueryResult Unit :=
  if policy.properties.isEmpty then .ok ()
  else touched.properties.toList.forM fun e =>
    if ownerExists after e.1.1 e.1.2.1 then do
      let same ← ofStorage (samePropertyState before after e.1)
      if same then .ok ()
      else match ids.propertyKeys.nameOf e.1.2.2 with
        | none => .error (.internal "Version property dictionary entry is missing")
        | some name => policy.checkWriteProperty name
    else .ok ()

def checkLayerEntities (after : Snapshot) (layer : LayerBuilder) : QueryResult Unit := do
  layer.nodes.toList.forM fun e => checkEntityChange policy (e.2 == .add)
  layer.relationships.toList.forM fun e => checkEntityChange policy (e.2.op == .add)
  layer.labels.toList.forM fun e =>
    if after.nodeExists e.1.1 then require policy.allowLabelChanges "writeAccess.allowLabelChanges"
    else .ok ()

def checkSchemaTransition (t : JsonText) (previous next : SchemaState) : QueryResult Unit := do
  let previous ← ofStorage (previous.canonicalBlob t)
  let next ← ofStorage (next.canonicalBlob t)
  if previous ≠ next then require policy.allowSchemaChanges "writeAccess.allowSchemaChanges"
  else .ok ()

end Checks

/-! ## 2. What may change -/

/-- **What a policy permits of a change** from one graph and schema to another. -/
structure Permitted (policy : WritePolicy) (ids : Identities) (before after : GraphState)
    (previous next : SchemaState) : Prop where
  created : ∀ kind id, after.ownerExists kind id = true → before.ownerExists kind id = false →
    policy.allowCreate = true
  deleted : ∀ kind id, before.ownerExists kind id = true → after.ownerExists kind id = false →
    policy.allowDelete = true
  labels : ∀ row : NodeId × LabelId, after.nodes[row.1]?.isSome →
    before.labels[row]? ≠ after.labels[row]? → policy.allowLabelChanges = true
  properties : ∀ (slot : PropertySlot) name, after.ownerExists slot.1 slot.2.1 = true →
    ¬ Option.Rel SameValue before.properties[slot]? after.properties[slot]? →
      ids.propertyKeys.nameOf slot.2.2 = some name → policy.properties.denies name = false
  schema : previous ≠ next → policy.allowSchemaChanges = true

/-- A refusal, as opposed to a check that could not be made. -/
def Refused (error : QueryError) : Prop := error.kind = .accessDenied

theorem require_decides (allowed : Bool) (permission : String) :
    Decides Refused (require allowed permission) (allowed = true) := by
  unfold require
  cases allowed with
  | true => exact decides_pass rfl
  | false => exact .inr ⟨Bool.false_ne_true, .accessDenied _, rfl, rfl⟩

variable {previous next : SchemaState} {g g' : GraphState} {l : LayerBuilder} {c : HashId}
  {ls : List LayerBuilder}

section Decisions

variable {policy : WritePolicy}

theorem checkEntityChange_decides (added : Bool) :
    Decides Refused (checkEntityChange policy added)
      (if added then policy.allowCreate = true else policy.allowDelete = true) := by
  unfold checkEntityChange
  cases added with
  | true => exact require_decides _ _
  | false => exact require_decides _ _

/-- What a change of one existence needs. -/
def EntityPermitted (policy : WritePolicy) (was is : Bool) : Prop :=
  was ≠ is → if is then policy.allowCreate = true else policy.allowDelete = true

theorem entityChange_decides (was is : Bool) :
    Decides Refused (if was != is then checkEntityChange policy is else .ok ())
      (EntityPermitted policy was is) := by
  refine (decides_ite (fun _ => checkEntityChange_decides is) fun _ =>
    decides_pass trivial).congr ?_
  unfold EntityPermitted
  rw [bne_iff_ne]
  exact and_iff_left fun _ => trivial

theorem checkWriteProperty_decides (access : WriteAccess) (name : Text) :
    Decides Refused (access.checkWriteProperty name) (access.properties.denies name = false) := by
  unfold WriteAccess.checkWriteProperty
  cases access.properties.denies name with
  | true => exact .inr ⟨Bool.noConfusion, .accessDenied _, rfl, rfl⟩
  | false => exact decides_pass rfl

theorem denies_of_isEmpty {rules : PropertyRules} (h : rules.isEmpty = true) (name : Text) :
    rules.denies name = false := by
  unfold PropertyRules.isEmpty at h
  simp only [Bool.and_eq_true, List.isEmpty_iff] at h
  unfold PropertyRules.denies
  rw [h.1.1, h.1.2, h.2]
  rfl

theorem checkSchemaTransition_decides {t : JsonText} {blob blob' : Bytes}
    (h : SchemaState.fromCanonicalBlob t blob = .ok previous)
    (h' : SchemaState.fromCanonicalBlob t blob' = .ok next) :
    Decides Refused (checkSchemaTransition policy t previous next)
      (previous ≠ next → policy.allowSchemaChanges = true) := by
  have hread := ofStorage_ok.mpr (SchemaState.fromCanonicalBlob_canonical h)
  have hread' := ofStorage_ok.mpr (SchemaState.fromCanonicalBlob_canonical h')
  unfold checkSchemaTransition
  refine .after hread (.after hread' ?_)
  refine (decides_ite (fun _ => require_decides _ _) fun _ => decides_pass trivial).congr ?_
  rw [ne_eq, ne_eq, SchemaState.canonicalBlob_inj h h']
  exact and_iff_left fun _ => trivial

end Decisions

/-! ## 3. Comparing two snapshots slot by slot -/

theorem samePropertyValue_ok {left right : Option PropertyValue}
    (hl : ∀ value, left = some value → ∃ bytes, value.canonicalBytes = .ok bytes)
    (hr : ∀ value, right = some value → ∃ bytes, value.canonicalBytes = .ok bytes) :
    ∃ same, samePropertyValue left right = .ok same ∧
      (same = true ↔ Option.Rel SameValue left right) := by
  unfold samePropertyValue
  cases left with
  | none =>
    cases right with
    | none => exact ⟨true, rfl, ⟨fun _ => .none, fun _ => rfl⟩⟩
    | some value => exact ⟨false, rfl, ⟨fun h => (nomatch h), fun h => (nomatch h)⟩⟩
  | some value =>
    cases right with
    | none => exact ⟨false, rfl, ⟨fun h => (nomatch h), fun h => (nomatch h)⟩⟩
    | some value' =>
      obtain ⟨bytes, hbytes⟩ := hl value rfl
      obtain ⟨bytes', hbytes'⟩ := hr value' rfl
      refine ⟨bytes == bytes', ?_, ?_⟩
      · dsimp only
        rw [hbytes, ok_bind, hbytes']
        rfl
      · rw [beq_iff_eq, Option.rel_some_some]
        unfold SameValue
        rw [hbytes, hbytes', Except.ok.injEq]

theorem removeLabel_fold : ∀ (state : Bool × ExtTreeMap LabelId Unit) {labels : List LabelId},
    labels.Nodup →
      ((labels.foldl removeLabel state).1 = true ↔
        state.1 = true ∧ ∀ label ∈ labels, state.2[label]?.isSome) ∧
      ∀ label, (labels.foldl removeLabel state).2[label]? =
        if label ∈ labels then none else state.2[label]?
  | state, [], _ => ⟨by simp, fun label => by simp⟩
  | state, label :: labels, hnodup => by
    obtain ⟨hnew, hrest⟩ := List.nodup_cons.mp hnodup
    obtain ⟨hequal, hleft⟩ := removeLabel_fold (removeLabel state label) hrest
    have herase : ∀ other, (removeLabel state label).2[other]? =
        if other = label then none else state.2[other]? := fun other =>
      lookup_erase state.2 label other
    constructor
    · rw [List.foldl_cons, hequal, List.forall_mem_cons]
      have hfirst : (removeLabel state label).1 = true ↔
          state.1 = true ∧ state.2[label]?.isSome := by
        unfold removeLabel
        rw [Bool.and_eq_true, ExtTreeMap.contains_eq_isSome_getElem?]
      rw [hfirst, and_assoc]
      refine and_congr_right fun _ => and_congr_right fun _ => forall₂_congr fun other hother => ?_
      have hne : other ≠ label := fun heq => hnew (heq ▸ hother)
      rw [herase, if_neg hne]
    · intro other
      rw [List.foldl_cons, hleft, herase]
      by_cases hother : other = label
      · subst hother
        simp
      · simp [hother]

theorem insertLabel_fold {label : LabelId} : ∀ {labels : List LabelId}
    {set : ExtTreeMap LabelId Unit},
    (labels.foldl (fun set label => set.insert label ()) set)[label]? =
      if label ∈ labels then some () else set[label]?
  | [], set => by simp
  | first :: labels, set => by
    rw [List.foldl_cons, insertLabel_fold, lookup_insert]
    by_cases hfirst : label = first
    · simp [hfirst]
    · simp [hfirst]

theorem visitNodeLabels_nodup {s : Snapshot} (hs : s.Formed) (node : NodeId) :
    (s.visitNodeLabels node).Nodup := by
  rw [Snapshot.visitNodeLabels_eq hs]
  unfold List.Nodup
  rw [List.pairwise_map]
  refine ((toList_keys_ne s.graph.labels).filter _).imp_of_mem fun {a b} ha hb hne hlabel => ?_
  have hnode : a.1.1 = node := by simpa using (List.mem_filter.mp ha).2
  have hnode' : b.1.1 = node := by simpa using (List.mem_filter.mp hb).2
  exact hne (Prod.ext (hnode.trans hnode'.symm) hlabel)

theorem unit_eq_iff {o o' : Option Unit} : o = o' ↔ (o.isSome ↔ o'.isSome) := by
  cases o <;> cases o' <;> simp

/-- **The label sets of a node are compared exactly.** -/
theorem sameLabels_iff {before after : Snapshot} (hb : before.Formed) (ha : after.Formed)
    (node : NodeId) : sameLabels before after node = true ↔
      ∀ label : LabelId, before.graph.labels[(node, label)]? =
        after.graph.labels[(node, label)]? := by
  have hvisit : ∀ {s : Snapshot}, s.Formed → ∀ label : LabelId,
      label ∈ s.visitNodeLabels node ↔ s.graph.labels[(node, label)]?.isSome := by
    intro s hs label
    rw [← List.contains_iff_mem, Snapshot.contains_visitNodeLabels hs (node, label)]
  have hinsert : ∀ label : LabelId,
      ((before.visitNodeLabels node).foldl (fun labels label => labels.insert label ())
        (∅ : ExtTreeMap LabelId Unit))[label]? =
          if label ∈ before.visitNodeLabels node then some () else none := by
    intro label
    rw [insertLabel_fold]
    simp
  obtain ⟨hequal, hleft⟩ := removeLabel_fold (true, (before.visitNodeLabels node).foldl
    (fun labels label => labels.insert label ()) ∅) (visitNodeLabels_nodup ha node)
  unfold sameLabels
  simp only [Bool.and_eq_true, hequal, true_and, ExtTreeMap.isEmpty_iff, hinsert]
  have hempty : ((after.visitNodeLabels node).foldl removeLabel
        (true, (before.visitNodeLabels node).foldl (fun labels label => labels.insert label ())
          ∅)).2 = ∅ ↔
      ∀ label ∈ before.visitNodeLabels node, label ∈ after.visitNodeLabels node := by
    constructor
    · intro hnone label hlabel
      have hthere := hleft label
      rw [hnone, hinsert, if_pos hlabel] at hthere
      by_cases hafter : label ∈ after.visitNodeLabels node
      · exact hafter
      · rw [if_neg hafter] at hthere
        simp at hthere
    · intro hsub
      refine ExtTreeMap.ext_getElem? fun label => ?_
      rw [hleft, hinsert]
      by_cases hafter : label ∈ after.visitNodeLabels node
      · simp [hafter]
      · have hbefore : label ∉ before.visitNodeLabels node := fun h => hafter (hsub label h)
        simp [hafter, hbefore]
  rw [hempty]
  simp only [unit_eq_iff, ← hvisit hb, ← hvisit ha]
  constructor
  · intro h label
    refine ⟨fun hlabel => h.2 label hlabel, fun hlabel => ?_⟩
    have hthere := h.1 label hlabel
    by_cases hbefore : label ∈ before.visitNodeLabels node
    · exact hbefore
    · simp [hbefore] at hthere
  · intro h
    refine ⟨fun label hlabel => ?_, fun label hlabel => (h label).mp hlabel⟩
    simp [(h label).mpr hlabel]

/-! ## 4. The slots that layers name -/

/-- **Each fact on which two graphs differ is in one of the layers.** -/
structure Covers (touched : List LayerBuilder) (g g' : GraphState) : Prop where
  nodes : ∀ id : NodeId, g.nodes[id]? ≠ g'.nodes[id]? → ∃ l ∈ touched, ∃ op, l.nodes[id]? = some op
  labels : ∀ row : NodeId × LabelId, g.labels[row]? ≠ g'.labels[row]? →
    ∃ l ∈ touched, ∃ op, l.labels[row]? = some op
  relationships : ∀ id : RelationshipId, g.relationships[id]? ≠ g'.relationships[id]? →
    ∃ l ∈ touched, ∃ delta, l.relationships[id]? = some delta
  properties : ∀ slot : PropertySlot,
    ¬ Option.Rel SameValue g.properties[slot]? g'.properties[slot]? →
      ∃ l ∈ touched, ∃ delta, l.properties[slot]? = some delta

theorem covers_touched {g₀ : GraphState} {l' : LayerBuilder} (h : g₀.apply l = g)
    (h' : g₀.apply l' = g') : Covers [l, l'] g g' := by
  have hnamed : ∀ {δ V : Type} {o o' : Option δ} {change : δ → Option V} {old v v' : Option V},
      v = (o.map change).getD old → v' = (o'.map change).getD old → v ≠ v' →
        (∃ d, o = some d) ∨ ∃ d, o' = some d := by
    intro δ V o o' change old v v' hv hv' hne
    cases o with
    | some d => exact .inl ⟨d, rfl⟩
    | none =>
      cases o' with
      | some d => exact .inr ⟨d, rfl⟩
      | none => exact absurd (hv.trans hv'.symm) hne
  subst h
  subst h'
  constructor
  · intro id hne
    rcases hnamed (g₀.nodes_apply l id) (g₀.nodes_apply l' id) hne with hop | hop
    · exact ⟨l, .head _, hop⟩
    · exact ⟨l', .tail _ (.head _), hop⟩
  · intro row hne
    rcases hnamed (g₀.labels_apply l row) (g₀.labels_apply l' row) hne with hop | hop
    · exact ⟨l, .head _, hop⟩
    · exact ⟨l', .tail _ (.head _), hop⟩
  · intro id hne
    rcases hnamed (g₀.relationships_apply l id) (g₀.relationships_apply l' id) hne with hop | hop
    · exact ⟨l, .head _, hop⟩
    · exact ⟨l', .tail _ (.head _), hop⟩
  · intro slot hrel
    have hne : (g₀.apply l).properties[slot]? ≠ (g₀.apply l').properties[slot]? := by
      intro heq
      rw [heq] at hrel
      exact hrel (rel_refl (fun v => (rfl : SameValue v v)) _)
    rcases hnamed (g₀.properties_apply l slot) (g₀.properties_apply l' slot) hne with hop | hop
    · exact ⟨l, .head _, hop⟩
    · exact ⟨l', .tail _ (.head _), hop⟩

theorem covers_between (h : l.Between g g') : Covers [l] g g' := by
  have hnamed : ∀ {K V D : Type} [Ord K] [TransOrd K] [LawfulEqOrd K] {same : V → V → Prop}
      {m m' : ExtTreeMap K V} {changes : ExtTreeMap K D} {change : D → Option V},
      IsDifference same m m' (changes.map fun _ d => change d) → ∀ k : K,
        ¬ Option.Rel same m[k]? m'[k]? → ∃ d, changes[k]? = some d := by
    intro K V D _ _ _ same m m' changes change hdiff k hrel
    cases hk : changes[k]? with
    | some d => exact ⟨d, rfl⟩
    | none =>
      refine absurd (hdiff.kept k ?_) hrel
      rw [ExtTreeMap.getElem?_map, hk]
      rfl
  have hne : ∀ {V : Type} {o o' : Option V}, o ≠ o' → ¬ Option.Rel Eq o o' := by
    intro V o o' hne hrel
    cases hrel with
    | none => exact hne rfl
    | some heq => exact hne (congrArg some heq)
  constructor
  · intro id hid
    exact ⟨l, List.mem_singleton.mpr rfl, hnamed h.nodes id (hne hid)⟩
  · intro row hrow
    exact ⟨l, List.mem_singleton.mpr rfl, hnamed h.labels row (hne hrow)⟩
  · intro id hid
    exact ⟨l, List.mem_singleton.mpr rfl, hnamed h.relationships id (hne hid)⟩
  · intro slot hslot
    exact ⟨l, List.mem_singleton.mpr rfl, hnamed h.properties slot hslot⟩

section Touched

variable {policy : WritePolicy} {ids : Identities} {before after : Snapshot}

/-- What the checks read of two snapshots: they are formed, their values have canonical bytes, and
    their property keys have names. -/
structure Legible (ids : Identities) (s : Snapshot) : Prop where
  formed : s.Formed
  encodable : ∀ (slot : PropertySlot) value, s.graph.properties[slot]? = some value →
    ∃ bytes, value.canonicalBytes = .ok bytes
  named : ∀ (slot : PropertySlot) value, s.graph.properties[slot]? = some value →
    (ids.propertyKeys.nameOf slot.2.2).isSome

theorem ownerExists_eq (s : Snapshot) (kind : OwnerKind) (id : Int) :
    ownerExists s kind id = s.graph.ownerExists kind id := by
  cases kind with
  | node => exact s.nodeExists_eq id
  | relationship => exact congrArg Option.isSome (s.relationship_eq id)

/-- What the properties of a change need. -/
def PropertyPermitted (policy : WritePolicy) (ids : Identities) (g g' : GraphState)
    (slot : PropertySlot) : Prop :=
  g'.ownerExists slot.1 slot.2.1 = true →
    ¬ Option.Rel SameValue g.properties[slot]? g'.properties[slot]? →
      ∀ name, ids.propertyKeys.nameOf slot.2.2 = some name → policy.properties.denies name = false

theorem checkTouchedProperties_decides (hb : Legible ids before) (ha : Legible ids after)
    (touched : LayerBuilder) :
    Decides Refused (checkTouchedProperties policy ids before after touched)
      (∀ (slot : PropertySlot) delta, touched.properties[slot]? = some delta →
        PropertyPermitted policy ids before.graph after.graph slot) := by
  unfold checkTouchedProperties
  have hone : ∀ slot : PropertySlot,
      Decides Refused
        (if ownerExists after slot.1 slot.2.1 then do
          let same ← ofStorage (samePropertyState before after slot)
          if same then .ok ()
          else match ids.propertyKeys.nameOf slot.2.2 with
            | none => .error (.internal "Version property dictionary entry is missing")
            | some name => policy.checkWriteProperty name
        else .ok ()) (PropertyPermitted policy ids before.graph after.graph slot) := by
    intro slot
    obtain ⟨same, hsame, hiff⟩ := samePropertyValue_ok
      (fun value hvalue => hb.encodable slot value hvalue)
      (fun value hvalue => ha.encodable slot value hvalue)
    have hread : ofStorage (samePropertyState before after slot) = .ok same := by
      rw [ofStorage_ok]
      unfold samePropertyState
      rw [before.property_eq, after.property_eq, hsame]
    unfold PropertyPermitted
    rw [ownerExists_eq]
    refine (decides_ite (fun _ => Decides.after hread ?_) fun _ => decides_pass trivial).congr
      (and_iff_left fun _ => trivial)
    cases same with
    | true => exact decides_pass fun hrel => absurd (hiff.mp rfl) hrel
    | false =>
      have hrel : ¬ Option.Rel SameValue before.graph.properties[slot]?
          after.graph.properties[slot]? := fun hrel => Bool.false_ne_true (hiff.mpr hrel)
      -- one of the two values is there, so the key has a name
      have hname : (ids.propertyKeys.nameOf slot.2.2).isSome := by
        cases hvalue : before.graph.properties[slot]? with
        | some value => exact hb.named slot value hvalue
        | none =>
          cases hvalue' : after.graph.properties[slot]? with
          | some value => exact ha.named slot value hvalue'
          | none =>
            rw [hvalue, hvalue'] at hrel
            exact absurd .none hrel
      obtain ⟨name, hname⟩ := Option.isSome_iff_exists.mp hname
      rw [hname]
      refine (checkWriteProperty_decides policy.toWriteAccess name).congr ?_
      constructor
      · intro hallowed _ name' hname'
        cases hname'
        exact hallowed
      · intro h
        exact h hrel name rfl
  by_cases hempty : policy.properties.isEmpty = true
  · rw [if_pos hempty]
    exact decides_pass fun slot delta _ _ _ name _ => denies_of_isEmpty hempty name
  · rw [if_neg hempty]
    exact (Decides.forM fun e _ => hone e.1).congr forall_mem_toList

/-- What the labels of one touched node need. -/
def LabelPermitted (policy : WritePolicy) (g g' : GraphState) (node : NodeId) : Prop :=
  g'.nodes[node]?.isSome →
    (∃ label : LabelId, g.labels[(node, label)]? ≠ g'.labels[(node, label)]?) →
      policy.allowLabelChanges = true

theorem checkTouchedLabels_decides (hb : before.Formed) (ha : after.Formed)
    (touched : LayerBuilder) :
    Decides Refused (checkTouchedLabels policy before after touched)
      (∀ (row : NodeId × LabelId) op, touched.labels[row]? = some op →
        LabelPermitted policy before.graph after.graph row.1) := by
  unfold checkTouchedLabels
  by_cases hallowed : policy.allowLabelChanges = true
  · rw [if_pos hallowed]
    exact decides_pass fun _ _ _ _ _ => hallowed
  · rw [if_neg hallowed]
    refine (Decides.forM fun e _ => decides_ite (fun hchanged => require_decides _ _) fun _ =>
      decides_pass trivial).congr (Iff.trans forall_mem_toList ?_)
    refine forall₃_congr fun row op _ => ?_
    unfold LabelPermitted
    simp only [Bool.and_eq_true, Bool.not_eq_true', Snapshot.nodeExists_eq, hallowed,
      Bool.false_eq_true, implies_true, and_true, imp_false, not_and]
    rw [Bool.not_eq_false, sameLabels_iff hb ha]
    simp only [not_exists, not_not]

/-- What the elements of a change need. -/
structure EntitiesPermitted (policy : WritePolicy) (g g' : GraphState) (touched : LayerBuilder) :
    Prop where
  nodes : ∀ (id : NodeId) op, touched.nodes[id]? = some op →
    EntityPermitted policy (g.ownerExists .node id) (g'.ownerExists .node id)
  relationships : ∀ (id : RelationshipId) delta, touched.relationships[id]? = some delta →
    EntityPermitted policy (g.ownerExists .relationship id) (g'.ownerExists .relationship id)
  labels : ∀ (row : NodeId × LabelId) op, touched.labels[row]? = some op →
    LabelPermitted policy g g' row.1

theorem checkTouchedEntities_decides (hb : before.Formed) (ha : after.Formed)
    {touched : LayerBuilder} (hkeyed : ∀ (id : RelationshipId) delta,
      touched.relationships[id]? = some delta → delta.record.id = id) :
    Decides Refused (checkTouchedEntities policy before after touched)
      (EntitiesPermitted policy before.graph after.graph touched) := by
  unfold checkTouchedEntities
  refine (Decides.seq (Decides.forM fun e _ => entityChange_decides _ _) fun _ =>
    Decides.seq (Decides.forM fun e _ => entityChange_decides _ _) fun _ =>
      checkTouchedLabels_decides hb ha touched).congr ?_
  rw [forall_mem_toList, forall_mem_toList]
  have hnodes : ∀ id : NodeId, EntityPermitted policy (before.nodeExists id) (after.nodeExists id) ↔
      EntityPermitted policy (before.graph.ownerExists .node id)
        (after.graph.ownerExists .node id) := by
    intro id
    rw [← ownerExists_eq, ← ownerExists_eq]
    rfl
  have hrelationships : ∀ id : RelationshipId,
      EntityPermitted policy (before.relationship id).isSome (after.relationship id).isSome ↔
        EntityPermitted policy (before.graph.ownerExists .relationship id)
          (after.graph.ownerExists .relationship id) := by
    intro id
    rw [← ownerExists_eq, ← ownerExists_eq]
    rfl
  constructor
  · intro h
    refine ⟨fun id op hop => (hnodes id).mp (h.1 id op hop), fun id delta hdelta => ?_, h.2.2⟩
    have hone := h.2.1 id delta hdelta
    rw [show (id, delta).2.record.id = id from hkeyed id delta hdelta] at hone
    exact (hrelationships id).mp hone
  · intro h
    refine ⟨fun id op hop => (hnodes id).mpr (h.nodes id op hop), fun id delta hdelta => ?_,
      h.labels⟩
    rw [show (id, delta).2.record.id = id from hkeyed id delta hdelta]
    exact (hrelationships id).mpr (h.relationships id delta hdelta)

/-- **What is touched is enough**: the checks of its slots are the check of the change. -/
theorem permitted_iff {touched : List LayerBuilder} (hc : Covers touched g g') :
    ((∀ l ∈ touched, EntitiesPermitted policy g g' l ∧ ∀ (slot : PropertySlot) delta,
        l.properties[slot]? = some delta → PropertyPermitted policy ids g g' slot) ∧
      (previous ≠ next → policy.allowSchemaChanges = true)) ↔
      Permitted policy ids g g' previous next := by
  constructor
  · intro h
    obtain ⟨htouched, hschema⟩ := h
    -- an element that is in one of the graphs only is an entry of a layer
    have hentity : ∀ (kind : OwnerKind) (id : Int),
        g.ownerExists kind id ≠ g'.ownerExists kind id →
          EntityPermitted policy (g.ownerExists kind id) (g'.ownerExists kind id) := by
      intro kind id hne
      cases kind with
      | node =>
        obtain ⟨l, hl, op, hop⟩ := hc.nodes id fun heq => hne (congrArg Option.isSome heq)
        exact (htouched l hl).1.nodes id op hop
      | relationship =>
        obtain ⟨l, hl, delta, hdelta⟩ := hc.relationships id fun heq =>
          hne (congrArg Option.isSome heq)
        exact (htouched l hl).1.relationships id delta hdelta
    refine ⟨fun kind id hnew hold => ?_, fun kind id hold hgone => ?_, fun row hnode hne => ?_,
      fun slot name howner hrel hname => ?_, hschema⟩
    · have hne : g.ownerExists kind id ≠ g'.ownerExists kind id := by
        rw [hnew, hold]
        exact Bool.false_ne_true
      have hallowed := hentity kind id hne hne
      rw [if_pos hnew] at hallowed
      exact hallowed
    · have hne : g.ownerExists kind id ≠ g'.ownerExists kind id := by
        rw [hold, hgone]
        exact Bool.true_eq_false_eq_False
      have hallowed := hentity kind id hne hne
      rw [if_neg (by rw [hgone]; exact Bool.false_ne_true)] at hallowed
      exact hallowed
    · obtain ⟨l, hl, op, hop⟩ := hc.labels row hne
      exact (htouched l hl).1.labels row op hop hnode ⟨row.2, hne⟩
    · obtain ⟨l, hl, delta, hdelta⟩ := hc.properties slot hrel
      exact (htouched l hl).2 slot delta hdelta howner hrel name hname
  · intro h
    have hentity : ∀ (kind : OwnerKind) (id : Int),
        EntityPermitted policy (g.ownerExists kind id) (g'.ownerExists kind id) := by
      intro kind id hne
      cases hnew : g'.ownerExists kind id with
      | true =>
        exact h.created kind id hnew (by rw [hnew] at hne; simpa using hne)
      | false =>
        exact h.deleted kind id (by rw [hnew] at hne; simpa using hne) hnew
    refine ⟨fun l _ => ⟨⟨fun id _ _ => hentity .node id, fun id _ _ => hentity .relationship id,
      fun row _ _ hnode hlabel => ?_⟩, fun slot _ _ howner hrel name hname =>
        h.properties slot name howner hrel hname⟩, h.schema⟩
    obtain ⟨label, hne⟩ := hlabel
    exact h.labels (row.1, label) hnode hne

/-! ## 5. The entries of a layer -/

/-- What the entries of a layer need, whatever they change. -/
structure LayerPermitted (policy : WritePolicy) (g' : GraphState) (l : LayerBuilder) : Prop where
  nodes : ∀ (id : NodeId) op, l.nodes[id]? = some op →
    if op == .add then policy.allowCreate = true else policy.allowDelete = true
  relationships : ∀ (id : RelationshipId) delta, l.relationships[id]? = some delta →
    if delta.op == .add then policy.allowCreate = true else policy.allowDelete = true
  labels : ∀ (row : NodeId × LabelId) op, l.labels[row]? = some op →
    g'.nodes[row.1]?.isSome → policy.allowLabelChanges = true

theorem checkLayerEntities_decides (after : Snapshot) (layer : LayerBuilder) :
    Decides Refused (checkLayerEntities policy after layer)
      (LayerPermitted policy after.graph layer) := by
  unfold checkLayerEntities
  refine (Decides.seq (Decides.forM fun e _ => checkEntityChange_decides _) fun _ =>
    Decides.seq (Decides.forM fun e _ => checkEntityChange_decides _) fun _ =>
      Decides.forM fun e _ => decides_ite (fun _ => require_decides _ _) fun _ =>
        decides_pass trivial).congr ?_
  rw [forall_mem_toList, forall_mem_toList, forall_mem_toList]
  have hlabel : ∀ row : NodeId × LabelId,
      ((after.nodeExists row.1 = true → policy.allowLabelChanges = true) ∧
        (¬ after.nodeExists row.1 = true → True)) ↔
      (after.graph.nodes[row.1]?.isSome → policy.allowLabelChanges = true) := by
    intro row
    rw [Snapshot.nodeExists_eq]
    exact and_iff_left fun _ => trivial
  constructor
  · intro h
    exact ⟨h.1, h.2.1, fun row op hop => (hlabel row).mp (h.2.2 row op hop)⟩
  · intro h
    exact ⟨h.nodes, h.relationships, fun row op hop => (hlabel row).mpr (h.labels row op hop)⟩

/-- **The entries of the layer between two graphs are what differs.** -/
theorem layerPermitted_iff (h : l.Between g g')
    (htuple : ∀ (id : RelationshipId) record record', g.relationships[id]? = some record →
      g'.relationships[id]? = some record' → record = record') :
    LayerPermitted policy g' l ↔ EntitiesPermitted policy g g' l := by
  have hdiffers : ∀ {K V D : Type} [Ord K] [TransOrd K] [LawfulEqOrd K] {m m' : ExtTreeMap K V}
      {changes : ExtTreeMap K D} {change : D → Option V},
      IsDifference Eq m m' (changes.map fun _ d => change d) → ∀ (k : K) d,
        changes[k]? = some d → m[k]? ≠ m'[k]? ∧ m'[k]? = change d := by
    intro K V D _ _ _ m m' changes change hdiff k d hd
    have hchange : (changes.map fun _ d => change d)[k]? = some (change d) := by
      rw [ExtTreeMap.getElem?_map, hd]
      rfl
    obtain ⟨hafter, hrel⟩ := hdiff.changed k _ hchange
    refine ⟨fun heq => hrel ?_, hafter.symm⟩
    rw [heq]
    exact rel_refl (fun _ => rfl) _
  -- the existence of a node or a relationship with an entry changes, to what the entry says
  have hnode : ∀ (id : NodeId) op, l.nodes[id]? = some op →
      (EntityPermitted policy (g.ownerExists .node id) (g'.ownerExists .node id) ↔
        if op == .add then policy.allowCreate = true else policy.allowDelete = true) := by
    intro id op hop
    obtain ⟨hne, hafter⟩ := hdiffers h.nodes id op hop
    have hexists : g.ownerExists .node id ≠ g'.ownerExists .node id := by
      show g.nodes[id]?.isSome ≠ g'.nodes[id]?.isSome
      intro heq
      exact hne (unit_eq_iff.mpr (by rw [heq]))
    have hnow : g'.ownerExists .node id = (op == .add) := by
      show g'.nodes[id]?.isSome = _
      rw [hafter]
      cases op <;> rfl
    unfold EntityPermitted
    rw [hnow] at hexists ⊢
    exact ⟨fun h => h hexists, fun h _ => h⟩
  have hrelationship : ∀ (id : RelationshipId) delta, l.relationships[id]? = some delta →
      (EntityPermitted policy (g.ownerExists .relationship id) (g'.ownerExists .relationship id) ↔
        if delta.op == .add then policy.allowCreate = true else policy.allowDelete = true) := by
    intro id delta hdelta
    obtain ⟨hne, hafter⟩ := hdiffers h.relationships id delta hdelta
    have hexists : g.ownerExists .relationship id ≠ g'.ownerExists .relationship id := by
      show g.relationships[id]?.isSome ≠ g'.relationships[id]?.isSome
      intro heq
      cases hold : g.relationships[id]? with
      | none =>
        rw [hold, Option.isSome_none] at heq
        have hnew := Option.isNone_iff_eq_none.mp (Option.isSome_eq_false_iff.mp heq.symm)
        exact hne (hold.trans hnew.symm)
      | some record =>
        rw [hold, Option.isSome_some] at heq
        obtain ⟨record', hnew⟩ := Option.isSome_iff_exists.mp heq.symm
        rw [hold, hnew, htuple id record record' hold hnew] at hne
        exact hne rfl
    have hnow : g'.ownerExists .relationship id = (delta.op == .add) := by
      show g'.relationships[id]?.isSome = _
      rw [hafter]
      unfold RelationshipDelta.change
      cases delta.op <;> rfl
    unfold EntityPermitted
    rw [hnow] at hexists ⊢
    exact ⟨fun h => h hexists, fun h _ => h⟩
  constructor
  · intro hl
    refine ⟨fun id op hop => (hnode id op hop).mpr (hl.nodes id op hop),
      fun id delta hdelta => (hrelationship id delta hdelta).mpr (hl.relationships id delta hdelta),
      fun row op hop hthere _ => hl.labels row op hop hthere⟩
  · intro hl
    refine ⟨fun id op hop => (hnode id op hop).mp (hl.nodes id op hop),
      fun id delta hdelta => (hrelationship id delta hdelta).mp (hl.relationships id delta hdelta),
      fun row op hop hthere => hl.labels row op hop hthere ⟨row.2, ?_⟩⟩
    exact (hdiffers h.labels row op hop).1

end Touched

namespace Repository

/-! ## 6. The checks on commits -/

section Commits

variable (x : Hashing) (t : JsonText) (r : Repository)

def commitParents (commit : HashId) : QueryResult (Option HashId × Option HashId) :=
  match r.commits[commit]? with
  | none => .error ⟨.storage, "Query returned no rows"⟩
  | some row => .ok (row.parent1, row.parent2)

/-- What is said of a chain that comes back to a commit, where the loops have no end. -/
def endlessChain : QueryError := .internal "Version operations have no common Root Commit"

/-- The first loop of `first_parent_common`: the commits on the chain of the left one. -/
def ancestorsFrom : Nat → HashId → ExtTreeMap HashId Unit → QueryResult (ExtTreeMap HashId Unit)
  | 0, _, _ => .error endlessChain
  | fuel + 1, left, ancestors => do
    let ancestors := ancestors.insert left ()
    let parents ← r.commitParents left
    match parents.1 with
    | none => pure ancestors
    | some parent => ancestorsFrom fuel parent ancestors

/-- The second loop: the first of them on the chain of the right one. -/
def commonFrom (ancestors : ExtTreeMap HashId Unit) : Nat → HashId → QueryResult HashId
  | 0, _ => .error endlessChain
  | fuel + 1, right =>
    if ancestors.contains right then .ok right
    else do
      let parents ← r.commitParents right
      match parents.1 with
      | none => .error (.internal "Version operations have no common Root Commit")
      | some parent => commonFrom ancestors fuel parent

def firstParentCommon (left right : HashId) : QueryResult HashId := do
  let ancestors ← r.ancestorsFrom (r.commits.size + 1) left ∅
  r.commonFrom ancestors (r.commits.size + 1) right

def loadSchema (commit : HashId) : StorageResult SchemaState := do
  let schemaHash ← schemaHashForCommit x commit r
  match r.schemas[schemaHash]? with
  | none => .error (.notFound ("Schema " ++ x.toHex schemaHash))
  | some blob => SchemaState.fromCanonicalBlob t blob

/-- `snapshot`, which also loads the schema. -/
def snapshot (commit : HashId) : StorageResult Snapshot := do
  let state ← r.database.resolveState x.toExternals commit none
  let _ ← r.loadSchema x t commit
  pure state.snapshot

/-- `with_layer_snapshot`: the layer and the schema are encoded, for the identity of the caches. -/
def withLayerSnapshot (commit : HashId) (layer : LayerBuilder) (schema : SchemaState) :
    StorageResult Snapshot := do
  let state ← r.database.resolveState x.toExternals commit none
  let _ ← layer.hashedBytes
  let _ ← schema.canonicalBlob t
  pure { state with overlay := state.overlay.apply layer }.snapshot

def checkCommits (beforeCommit afterCommit : HashId) (policy : WritePolicy) : QueryResult Unit :=
  if beforeCommit = afterCommit ∨ unrestrictedGraphWrites policy then .ok ()
  else do
    let common ← r.firstParentCommon beforeCommit afterCommit
    let beforeTouched ← ofStorage (r.database.loadTouched common beforeCommit)
    let afterTouched ← ofStorage (r.database.loadTouched common afterCommit)
    let before ← ofStorage (r.snapshot x t beforeCommit)
    let after ← ofStorage (r.snapshot x t afterCommit)
    [beforeTouched, afterTouched].forM fun touched => do
      checkTouchedEntities policy before after touched
      checkTouchedProperties policy r.ids before after touched
    let previous ← ofStorage (r.loadSchema x t beforeCommit)
    let next ← ofStorage (r.loadSchema x t afterCommit)
    checkSchemaTransition policy t previous next

def checkLayer (beforeCommit : HashId) (layer : LayerBuilder) (nextSchema : SchemaState)
    (policy : WritePolicy) : QueryResult Unit :=
  if unrestrictedGraphWrites policy then .ok ()
  else do
    let before ← ofStorage (r.snapshot x t beforeCommit)
    let after ← ofStorage (r.withLayerSnapshot x t beforeCommit layer nextSchema)
    checkLayerEntities policy after layer
    checkTouchedProperties policy r.ids before after layer
    let previous ← ofStorage (r.loadSchema x t beforeCommit)
    checkSchemaTransition policy t previous nextSchema

end Commits

/-! ## 7. The common commit -/

/-- What the checks rely on: the two sides fit together, one root, schemas that can be read. -/
structure Readable (x : Hashing) (t : JsonText) (r : Repository) : Prop where
  linked : Linked x r
  root : ∀ (c c' : HashId) (row row' : PersistedCommitRow), r.commits[c]? = some row →
    r.commits[c']? = some row' → row.parent1 = none → row'.parent1 = none → c = c'
  schemas : ∀ (hash : HashId) (blob : Bytes), r.schemas[hash]? = some blob →
    ∃ schema, SchemaState.fromCanonicalBlob t blob = .ok schema

section Chains

variable {x : Hashing} {t : JsonText} {r : Repository}

theorem commitParents_ok {row : Storage.CommitRow HashId} (h : r.database.commits[c]? = some row) :
    r.commitParents c = .ok (row.parent1, row.parent2) := by
  obtain ⟨full, hfull, rfl⟩ := database_row h
  unfold commitParents
  rw [hfull]
  rfl

theorem lineage_root (h : Database.Lineage x.toExternals r.database c ls) :
    ∃ (root : HashId) (row : Storage.CommitRow HashId),
      Relation.ReflTransGen r.database.FirstParent c root ∧
        r.database.commits[root]? = some row ∧ row.parent1 = none := by
  induction h with
  | root hrow hparent _ => exact ⟨_, _, .refl, hrow, hparent⟩
  | child hrow hparent _ _ ih =>
    obtain ⟨root, row, hchain, hroot⟩ := ih
    exact ⟨root, row, .head ⟨_, hrow, hparent⟩ hchain, hroot⟩

theorem ancestorsFrom_ok (h : Database.Lineage x.toExternals r.database c ls) :
    ∀ (fuel : Nat) (ancestors : ExtTreeMap HashId Unit), ls.length ≤ fuel →
      ∃ all, r.ancestorsFrom fuel c ancestors = .ok all ∧ ∀ d : HashId, all[d]?.isSome ↔
        ancestors[d]?.isSome ∨ Relation.ReflTransGen r.database.FirstParent c d := by
  have hinsert : ∀ (ancestors : ExtTreeMap HashId Unit) (c d : HashId),
      (ancestors.insert c ())[d]?.isSome ↔ ancestors[d]?.isSome ∨ c = d := by
    intro ancestors c d
    by_cases hd : d = c
    · simp [hd]
    · simp [Ne.symm hd]
  induction h with
  | @root c row _ hrow hparent _ =>
    intro fuel ancestors hfuel
    obtain ⟨fuel, rfl⟩ := Nat.exists_eq_add_of_le' hfuel
    refine ⟨ancestors.insert c (), ?_, fun d => (hinsert ancestors c d).trans (or_congr_right ?_)⟩
    · show r.ancestorsFrom (fuel + 1) c ancestors = _
      rw [ancestorsFrom, commitParents_ok hrow, ok_bind]
      simp only [hparent]
      rfl
    · constructor
      · intro heq
        rw [heq]
      · intro hchain
        rcases Relation.ReflTransGen.cases_head hchain with heq | ⟨parent, ⟨row', hrow', hsome⟩, _⟩
        · exact heq
        · rw [hrow] at hrow'
          cases hrow'
          rw [hparent] at hsome
          cases hsome
  | @child c parent row _ ls hrow hparent _ _ ih =>
    intro fuel ancestors hfuel
    obtain ⟨fuel, rfl⟩ := Nat.exists_eq_add_of_le' hfuel
    obtain ⟨all, hall, hmem⟩ := ih (fuel + ls.length) (ancestors.insert c ()) (Nat.le_add_left _ _)
    refine ⟨all, ?_, fun d => (hmem d).trans ?_⟩
    · show r.ancestorsFrom (fuel + ls.length + 1) c ancestors = _
      rw [ancestorsFrom, commitParents_ok hrow, ok_bind]
      simp only [hparent]
      exact hall
    · rw [hinsert, or_assoc]
      refine or_congr_right ?_
      constructor
      · intro h
        rcases h with heq | hchain
        · rw [heq]
        · exact .head ⟨row, hrow, hparent⟩ hchain
      · intro hchain
        rcases Relation.ReflTransGen.cases_head hchain with heq | ⟨p, ⟨row', hrow', hsome⟩, hrest⟩
        · exact .inl heq
        · rw [hrow] at hrow'
          cases hrow'
          rw [hparent] at hsome
          cases hsome
          exact .inr hrest

theorem commonFrom_ok {ancestors : ExtTreeMap HashId Unit}
    (hroots : ∀ (root : HashId) (row : Storage.CommitRow HashId),
      r.database.commits[root]? = some row → row.parent1 = none → ancestors[root]?.isSome)
    (h : Database.Lineage x.toExternals r.database c ls) :
    ∀ fuel, ls.length ≤ fuel → ∃ common, r.commonFrom ancestors fuel c = .ok common ∧
      ancestors[common]?.isSome ∧ Relation.ReflTransGen r.database.FirstParent c common := by
  have hstop : ∀ (c : HashId) fuel, ancestors[c]?.isSome →
      r.commonFrom ancestors (fuel + 1) c = .ok c := by
    intro c fuel hc
    rw [commonFrom, ExtTreeMap.contains_eq_isSome_getElem?, if_pos hc]
  induction h with
  | @root c row _ hrow hparent _ =>
    intro fuel hfuel
    obtain ⟨fuel, rfl⟩ := Nat.exists_eq_add_of_le' hfuel
    have hc := hroots c row hrow hparent
    exact ⟨c, hstop c fuel hc, hc, .refl⟩
  | @child c parent row _ ls hrow hparent _ _ ih =>
    intro fuel hfuel
    obtain ⟨fuel, rfl⟩ := Nat.exists_eq_add_of_le' hfuel
    by_cases hc : ancestors[c]?.isSome
    · exact ⟨c, hstop c (fuel + ls.length) hc, hc, .refl⟩
    · obtain ⟨common, hcommon, hmem, hchain⟩ := ih (fuel + ls.length) (Nat.le_add_left _ _)
      refine ⟨common, ?_, hmem, .head ⟨row, hrow, hparent⟩ hchain⟩
      show r.commonFrom ancestors (fuel + ls.length + 1) c = _
      rw [commonFrom, ExtTreeMap.contains_eq_isSome_getElem?, if_neg hc, commitParents_ok hrow,
        ok_bind]
      simp only [hparent]
      exact hcommon

/-- **A common commit is found.** -/
theorem firstParentCommon_ok (hr : Readable x t r) {left right : HashId} {ls' : List LayerBuilder}
    (h : Database.Lineage x.toExternals r.database left ls)
    (h' : Database.Lineage x.toExternals r.database right ls') :
    ∃ common, r.firstParentCommon left right = .ok common ∧
      Relation.ReflTransGen r.database.FirstParent left common ∧
        Relation.ReflTransGen r.database.FirstParent right common := by
  have hsize : r.database.commits.size = r.commits.size := ExtTreeMap.size_map
  have hle : ∀ {c : HashId} {ls : List LayerBuilder},
      Database.Lineage x.toExternals r.database c ls → ls.length ≤ r.commits.size + 1 := by
    intro c ls hls
    rw [← hsize]
    exact Nat.le_succ_of_le hls.length_le
  obtain ⟨ancestors, hancestors, hmem⟩ := ancestorsFrom_ok h (r.commits.size + 1) ∅ (hle h)
  have hmem' : ∀ d : HashId, ancestors[d]?.isSome ↔
      Relation.ReflTransGen r.database.FirstParent left d := by
    intro d
    rw [hmem d]
    simp
  obtain ⟨root, row, hchain, hroot, hnone⟩ := lineage_root h
  have hroots : ∀ (root' : HashId) (row' : Storage.CommitRow HashId),
      r.database.commits[root']? = some row' → row'.parent1 = none → ancestors[root']?.isSome := by
    intro root' row' hroot' hnone'
    obtain ⟨full, hfull, rfl⟩ := database_row hroot
    obtain ⟨full', hfull', rfl⟩ := database_row hroot'
    rw [hr.root root' root full' full hfull' hfull hnone' hnone, hmem']
    exact hchain
  obtain ⟨common, hcommon, hin, hright⟩ := commonFrom_ok hroots h' (r.commits.size + 1) (hle h')
  refine ⟨common, ?_, (hmem' common).mp hin, hright⟩
  unfold firstParentCommon
  rw [hancestors, ok_bind, hcommon]

end Chains

/-! ## 8. The verdicts -/

/-- A commit as it is loaded: its snapshot, the graph and the schema. -/
structure Loaded (x : Hashing) (t : JsonText) (r : Repository) (c : HashId) (s : IndexedSnapshot)
    (g : GraphState) (schema : SchemaState) : Prop where
  state : r.database.resolveState x.toExternals c none = .ok s
  graph : s.snapshot.loadState = .ok g
  schema : r.loadSchema x t c = .ok schema

/-- What is known of a commit that was loaded. -/
structure Shown (x : Hashing) (r : Repository) (c : HashId) (s : IndexedSnapshot) (g : GraphState)
    (ls : List LayerBuilder) : Prop where
  lineage : Database.Lineage x.toExternals r.database c ls
  graph : g = Database.graphOf ls
  shows : s.snapshot.graph = g
  valid : s.Valid r.database.tuples
  admissible : g.Admissible r.ids r.database.tuples

section Verdicts

variable {x : Hashing} {t : JsonText} {r : Repository} {policy : WritePolicy} {schema : SchemaState}
  {s : IndexedSnapshot}

theorem loadSchema_row (h : r.loadSchema x t c = .ok schema) :
    ∃ row blob, r.commits[c]? = some row ∧ r.schemas[row.schemaHash]? = some blob ∧
      SchemaState.fromCanonicalBlob t blob = .ok schema := by
  unfold loadSchema at h
  obtain ⟨hash, hhash, h⟩ := bind_eq_ok.mp h
  unfold schemaHashForCommit at hhash
  split at hhash
  · rename_i row hrow
    cases hhash
    split at h
    · cases h
    · rename_i blob hblob
      exact ⟨row, blob, hrow, hblob, h⟩
  · cases hhash

theorem Readable.load (hr : Readable x t r) {c : HashId} {row : PersistedCommitRow}
    (hrow : r.commits[c]? = some row) : ∃ s g schema, Loaded x t r c s g schema := by
  obtain ⟨s, ls, hstate, _, _, hgraph, _⟩ := hr.linked.sound.load (database_row_of hrow)
  obtain ⟨blob, hblob⟩ := hr.linked.schemas c row hrow
  obtain ⟨schema, hschema⟩ := hr.schemas row.schemaHash blob hblob
  refine ⟨s, Database.graphOf ls, schema, hstate, hgraph, ?_⟩
  have hhash : schemaHashForCommit x c r = .ok row.schemaHash := by
    unfold schemaHashForCommit
    rw [hrow]
  unfold loadSchema
  rw [hhash, ok_bind, hblob]
  exact hschema

theorem Loaded.shown (hr : Readable x t r)
    (h : Loaded x t r c s g schema) : ∃ ls, Shown x r c s g ls := by
  obtain ⟨row, _, hrow, _⟩ := loadSchema_row h.schema
  obtain ⟨s', ls, hstate, hls, hshows, hgraph, hvalid, hadmissible⟩ :=
    hr.linked.sound.load (database_row_of hrow)
  rw [h.state, Except.ok.injEq] at hstate
  subst hstate
  rw [h.graph, Except.ok.injEq] at hgraph
  subst hgraph
  exact ⟨ls, hls, rfl, hshows, hvalid, hadmissible⟩

theorem Shown.legible (h : Shown x r c s g ls) : Legible r.ids s.snapshot := by
  have hstored : g.Stored := by
    rw [h.graph]
    exact h.lineage.stored.1
  refine ⟨h.valid.sound.formed, fun slot value hvalue => ?_, fun slot value hvalue => ?_⟩
  · rw [h.shows] at hvalue
    exact (hstored.properties slot value hvalue).2.2
  · rw [h.shows] at hvalue
    exact h.admissible.properties slot value hvalue

theorem Loaded.snapshot {c : HashId} {g : GraphState}
    (h : Loaded x t r c s g schema) : r.snapshot x t c = .ok s.snapshot := by
  unfold Repository.snapshot
  rw [h.state, ok_bind, h.schema]
  rfl

theorem permitted_refl (ids : Identities) (g : GraphState) (schema : SchemaState) :
    Permitted policy ids g g schema schema := by
  refine ⟨fun kind id hnew hold => ?_, fun kind id hold hnew => ?_, fun row _ hne => absurd rfl hne,
    fun slot _ _ hrel => absurd (rel_refl (fun v => (rfl : SameValue v v)) _) hrel,
    fun hne => absurd rfl hne⟩
  · rw [hnew] at hold
    cases hold
  · rw [hold] at hnew
    cases hnew

theorem permitted_unrestricted (h : unrestrictedGraphWrites policy = true) (ids : Identities)
    (g g' : GraphState) (previous next : SchemaState) :
    Permitted policy ids g g' previous next := by
  unfold unrestrictedGraphWrites at h
  simp only [Bool.and_eq_true] at h
  obtain ⟨⟨⟨⟨hproperties, hcreate⟩, hdelete⟩, hlabels⟩, hschema⟩ := h
  exact ⟨fun _ _ _ _ => hcreate, fun _ _ _ _ => hdelete, fun _ _ _ => hlabels,
    fun _ name _ _ _ => denies_of_isEmpty hproperties name, fun _ => hschema⟩

/-- **The check of two commits decides what is permitted of the change.** -/
theorem checkCommits_decides (hr : Readable x t r) {b a : HashId} {sb sa : IndexedSnapshot}
    (hb : Loaded x t r b sb g previous) (ha : Loaded x t r a sa g' next) :
    Decides Refused (r.checkCommits x t b a policy)
      (Permitted policy r.ids g g' previous next) := by
  obtain ⟨ls, hshown⟩ := hb.shown hr
  obtain ⟨ls', hshown'⟩ := ha.shown hr
  unfold checkCommits
  by_cases hskip : b = a ∨ unrestrictedGraphWrites policy
  · rw [if_pos hskip]
    refine decides_pass ?_
    rcases hskip with heq | hfree
    · -- the same commit is loaded as the same graph and schema
      subst heq
      have hschema := hb.schema.symm.trans ha.schema
      have hlineage := hshown.lineage.unique hshown'.lineage
      cases hschema
      rw [hshown.graph, hshown'.graph, hlineage]
      exact permitted_refl _ _ _
    · exact permitted_unrestricted hfree _ _ _ _ _
  · rw [if_neg hskip]
    obtain ⟨common, hcommon, hleft, hright⟩ :=
      firstParentCommon_ok hr hshown.lineage hshown'.lineage
    obtain ⟨base, hbase⟩ := hshown.lineage.chain hleft
    obtain ⟨touched, htouched, happly, hrecorded⟩ :=
      Database.loadTouched_ok hbase hshown.lineage hleft
    obtain ⟨touched', htouched', happly', hrecorded'⟩ :=
      Database.loadTouched_ok hbase hshown'.lineage hright
    have hcovers : Covers [touched, touched'] g g' := by
      rw [hshown.graph, hshown'.graph]
      exact covers_touched happly happly'
    obtain ⟨_, _, _, _, hprevious⟩ := loadSchema_row hb.schema
    obtain ⟨_, _, _, _, hnext⟩ := loadSchema_row ha.schema
    refine (Decides.after hcommon (.after (ofStorage_ok.mpr htouched)
      (.after (ofStorage_ok.mpr htouched') (.after (ofStorage_ok.mpr hb.snapshot)
        (.after (ofStorage_ok.mpr ha.snapshot) (Decides.seq (Decides.forM fun l hl => ?_)
          fun _ => .after (ofStorage_ok.mpr hb.schema) (.after (ofStorage_ok.mpr ha.schema)
            (checkSchemaTransition_decides hprevious hnext)))))))).congr (permitted_iff hcovers)
    rw [← hshown.shows, ← hshown'.shows]
    refine (checkTouchedEntities_decides hshown.legible.formed hshown'.legible.formed
      fun id delta hdelta => ?_).seq fun _ =>
        checkTouchedProperties_decides hshown.legible hshown'.legible l
    rcases List.mem_cons.mp hl with heq | hl
    · rw [heq] at hdelta
      exact (hrecorded id delta hdelta).1
    · rw [List.mem_singleton.mp hl] at hdelta
      exact (hrecorded' id delta hdelta).1

/-- **So does the check of the layer between them.** -/
theorem checkLayer_decides (hr : Readable x t r) {b a : HashId} {sb sa : IndexedSnapshot}
    (hb : Loaded x t r b sb g previous) (ha : Loaded x t r a sa g' next)
    (hl : LayerBuilder.layerBetween g g' = .ok l) :
    Decides Refused (r.checkLayer x t b l next policy)
      (Permitted policy r.ids g g' previous next) := by
  obtain ⟨ls, hshown⟩ := hb.shown hr
  obtain ⟨ls', hshown'⟩ := ha.shown hr
  have hstored : g.Stored ∧ g.Canonical := by
    rw [hshown.graph]
    exact hshown.lineage.stored
  have hstored' : g'.Stored ∧ g'.Canonical := by
    rw [hshown'.graph]
    exact hshown'.lineage.stored
  have htuple : ∀ (id : RelationshipId) record record', g.relationships[id]? = some record →
      g'.relationships[id]? = some record' → record = record' := by
    rw [← hshown.shows]
    exact Database.tuple_kept hshown.valid hstored'.1 hshown'.admissible
  obtain ⟨l', hl', hbetween⟩ := LayerBuilder.layerBetween_ok hstored.1 hstored'.1 htuple
  rw [hl, Except.ok.injEq] at hl'
  subst hl'
  unfold checkLayer
  by_cases hfree : unrestrictedGraphWrites policy = true
  · rw [if_pos hfree]
    exact decides_pass (permitted_unrestricted hfree _ _ _ _ _)
  · rw [if_neg hfree]
    -- the staged snapshot shows the second graph
    have hformed := hbetween.formed hstored.1 hstored'.1
    have hconsistent : g.Consistent := hshown.shows ▸ hshown.valid.consistent
    have hconsistent' : g'.Consistent := hshown'.shows ▸ hshown'.valid.consistent
    have haccepted := hbetween.accepted hstored.1 hconsistent hshown.admissible hstored'.1
      hconsistent' hshown'.admissible
    rw [← hshown.shows] at haccepted
    have hcheck := (IndexedSnapshot.validateLayer_ok hshown.valid.sound hformed
      fun _ _ hrecord => hshown.valid.graphRows hrecord).mpr haccepted
    have hvalid := IndexedSnapshot.valid_applyLayer hshown.valid hformed hcheck
    have hgraph : (sb.applyLayer l).snapshot.graph = g' := by
      rw [IndexedSnapshot.snapshot_applyLayer hshown.valid.sound hformed, Snapshot.graph_applyLayer,
        hshown.shows, hbetween.apply_eq hstored.1 hstored'.1 hstored.2 hstored'.2]
    have hlegible : Legible r.ids (sb.applyLayer l).snapshot := by
      refine ⟨hvalid.sound.formed, fun slot value hvalue => ?_, fun slot value hvalue => ?_⟩
      · rw [hgraph] at hvalue
        exact (hstored'.1.properties slot value hvalue).2.2
      · rw [hgraph] at hvalue
        exact hshown'.admissible.properties slot value hvalue
    -- it can be made, for the layer and the schema have bytes
    obtain ⟨_, blob, _, _, hnext⟩ := loadSchema_row ha.schema
    have hlayer : r.withLayerSnapshot x t b l next = .ok (sb.applyLayer l).snapshot := by
      have hhashable : g'.Hashable := by
        rw [hshown'.graph]
        exact hshown'.lineage.hashable
      obtain ⟨bytes, hbytes⟩ := LayerBuilder.hashedBytes_of_hashable hhashable
        fun slot delta hdelta => by
          obtain ⟨hafter, _⟩ := LayerBuilder.changed_cases hbetween.properties hdelta
          have hvalues := hbetween.values slot delta hdelta
          obtain ⟨op, value⟩ := delta
          cases value with
          | some value =>
            have hop : op = .add := hvalues.mpr rfl
            exact .inr ⟨value, by rw [hop], hafter⟩
          | none =>
            have hop : op = .remove := by
              cases op with
              | add => exact absurd (hvalues.mp rfl) Bool.false_ne_true
              | remove => rfl
            exact .inl (by rw [hop])
      unfold withLayerSnapshot
      rw [hb.state, ok_bind, hbytes, ok_bind, SchemaState.fromCanonicalBlob_canonical hnext]
      rfl
    obtain ⟨_, _, _, _, hprevious⟩ := loadSchema_row hb.schema
    have hschema : Decides Refused (do
          let previous ← ofStorage (r.loadSchema x t b)
          checkSchemaTransition policy t previous next)
        (previous ≠ next → policy.allowSchemaChanges = true) :=
      .after (ofStorage_ok.mpr hb.schema) (checkSchemaTransition_decides hprevious hnext)
    refine (Decides.after (ofStorage_ok.mpr hb.snapshot) (.after (ofStorage_ok.mpr hlayer)
      ((checkLayerEntities_decides _ l).seq fun _ =>
        (checkTouchedProperties_decides hshown.legible hlegible l).seq fun _ => hschema))).congr
      (Iff.trans ?_ (permitted_iff (covers_between hbetween)))
    rw [hgraph, hshown.shows, layerPermitted_iff hbetween htuple]
    simp only [List.mem_singleton, forall_eq, and_assoc]

end Verdicts

/-! ## 9. Runs -/

/-- The bytes of a schema, as the commands make and write it. -/
def SchemaBlob (t : JsonText) (blob : Bytes) : Prop :=
  ∃ schema : SchemaState, schema.Writable t ∧ schema.canonicalBlob t = .ok blob

/-- The schema objects that the writes of a call store are schemas. -/
def StoresSchemas (t : JsonText) (ops : List Op) : Prop :=
  ∀ blob, .persistSchema blob ∈ ops → SchemaBlob t blob

/-- The repositories that runs from a fresh database reach, every schema object of which was written
    from a schema. -/
inductive SchemaReaches (x : Hashing) (t : JsonText) (r : Repository) : Prop
  | intro {schemaBlob : Bytes} {rootMetadata : CommitMetadata} {fresh : Repository}
      {calls : List (List Op × Reply)} (hblob : SchemaBlob t schemaBlob)
      (hfresh : initializeRoot x schemaBlob rootMetadata = .ok fresh)
      (hrun : Trace (fun r call r' => StoresSchemas t call.1 ∧ Step x r call r') fresh calls r) :
      SchemaReaches x t r

section Runs

variable {x : Hashing} {t : JsonText} {r r' : Repository}

theorem SchemaBlob.read {blob : Bytes} (h : SchemaBlob t blob) :
    ∃ schema, SchemaState.fromCanonicalBlob t blob = .ok schema := by
  obtain ⟨schema, hwritable, hblob⟩ := h
  exact ⟨schema, SchemaState.fromCanonicalBlob_canonicalBlob hwritable hblob⟩

theorem exec_schemas (hl : Linked x r) {op : Op} {outcome : Outcome}
    (h : exec x op r = .ok outcome r') {hash : HashId} {blob : Bytes}
    (hblob : r'.schemas[hash]? = some blob) :
    r.schemas[hash]? = some blob ∨ op = .persistSchema blob := by
  cases exec_written hl h with
  | installed _ hinstalled =>
    obtain ⟨_, _, _, _, _, hr', _⟩ := hinstalled.tables
    rw [hr'] at hblob
    exact .inl hblob
  | swept _ hswept => exact .inl (hswept.schemas hash blob hblob)
  | store _ _ _ _ => exact .inl hblob
  | tables _ _ _ _ _ hschemas => exact hschemas hash blob hblob

/-- **Every write keeps the commits and schemas readable.** -/
theorem readable_exec (hr : Readable x t r) {op : Op} {outcome : Outcome}
    (hop : ∀ blob, op = .persistSchema blob → SchemaBlob t blob)
    (h : exec x op r = .ok outcome r') : Readable x t r' := by
  -- a row without a first parent was there before
  have hold : ∀ (c : HashId) (row : PersistedCommitRow), r'.commits[c]? = some row →
      row.parent1 = none → r.commits[c]? = some row := by
    intro c row hrow hnone
    rcases exec_cases hr.linked h with ⟨input, schemaHash, commit, _, _, hi⟩ | ⟨_, hs⟩ | ⟨_, hu⟩
    · obtain ⟨_, _, _, _, _, _, hcommits⟩ := hi.tables
      rw [hcommits] at hrow
      split at hrow
      · cases hrow
        cases hnone
      · exact hrow
    · exact ((hs.commits c row).mp hrow).1
    · rw [hu.commits] at hrow
      exact hrow
  refine ⟨linked_exec hr.linked h, fun c c' row row' hrow hrow' hnone hnone' => ?_,
    fun hash blob hblob => ?_⟩
  · exact hr.root c c' row row' (hold c row hrow hnone) (hold c' row' hrow' hnone') hnone hnone'
  · rcases exec_schemas hr.linked h hblob with hthere | hwritten
    · exact hr.schemas hash blob hthere
    · exact (hop blob hwritten).read

theorem readable_execAll : ∀ {ops : List Op} {r r' : Repository} {outcomes : List Outcome},
    Readable x t r → StoresSchemas t ops → execAll x ops r = .ok outcomes r' → Readable x t r'
  | [], r, r', outcomes, hr, _, h => by
    obtain ⟨_, rfl⟩ := tx_pure_ok.mp h
    exact hr
  | op :: ops, r, r', outcomes, hr, hops, h => by
    simp only [execAll, tx_bind_ok, tx_pure_ok] at h
    obtain ⟨_, mid, hop, _, _, hrest, _, rfl⟩ := h
    have hmid := readable_exec hr (fun blob hblob => hops blob (hblob ▸ (.head _))) hop
    exact readable_execAll hmid (fun blob hblob => hops blob (List.mem_cons_of_mem op hblob)) hrest

theorem readable_step {call : List Op × Reply} (hr : Readable x t r)
    (hops : StoresSchemas t call.1) (h : Step x r call r') : Readable x t r' := by
  obtain ⟨ops, reply⟩ := call
  cases reply with
  | ok outcomes => exact readable_execAll hr hops (savepoint_ok.mp h)
  | error e =>
    cases savepoint_error h
    exact hr

theorem readable_fresh {schemaBlob : Bytes} {rootMetadata : CommitMetadata}
    (hblob : SchemaBlob t schemaBlob) (h : initializeRoot x schemaBlob rootMetadata = .ok r) :
    Readable x t r := by
  have hlinked := linked_fresh h
  cases h
  have honly : ∀ {V : Type} {c k : HashId} {v v' : V},
      ((∅ : ExtTreeMap HashId V).insert k v')[c]? = some v → c = k ∧ v = v' := by
    intro V c k v v' hv
    rw [lookup_insert] at hv
    split at hv
    · rename_i hc
      cases hv
      exact ⟨hc, rfl⟩
    · simp at hv
  refine ⟨hlinked, fun c c' row row' hrow hrow' _ _ => ?_, fun hash blob hthere => ?_⟩
  · exact (honly hrow).1.trans (honly hrow').1.symm
  · rw [(honly hthere).2]
    exact hblob.read

/-- **Over every run commits and schemas can be read.** -/
theorem readable_reaches (h : SchemaReaches x t r) : Readable x t r := by
  obtain ⟨hblob, hfresh, hrun⟩ := h
  exact trace_inv (Readable x t) (fun _ _ _ hr hstep => readable_step hr hstep.1 hstep.2) hrun
    (readable_fresh hblob hfresh)

/-- **Write restrictions judge exactly the final change.** In every repository that a run reaches,
    whatever the policy, two commits load as graphs and schemas; the check of the commits and the
    check of the layer between the graphs pass where the policy permits the change from the one to
    the other, and refuse it where it does not. -/
theorem writeRestrictions_exact (h : SchemaReaches x t r) (policy : WritePolicy)
    {beforeCommit afterCommit : HashId} (hbefore : r.commits.contains beforeCommit = true)
    (hafter : r.commits.contains afterCommit = true) :
    ∃ sb sa before after previous next layer, Loaded x t r beforeCommit sb before previous ∧
      Loaded x t r afterCommit sa after next ∧
      LayerBuilder.layerBetween before after = .ok layer ∧
      Decides Refused (r.checkCommits x t beforeCommit afterCommit policy)
        (Permitted policy r.ids before after previous next) ∧
      Decides Refused (r.checkLayer x t beforeCommit layer next policy)
        (Permitted policy r.ids before after previous next) := by
  have hr := readable_reaches h
  have hload : ∀ {c : HashId}, r.commits.contains c = true →
      ∃ s g schema, Loaded x t r c s g schema := by
    intro c hc
    rw [ExtTreeMap.contains_eq_isSome_getElem?] at hc
    obtain ⟨row, hrow⟩ := Option.isSome_iff_exists.mp hc
    exact hr.load hrow
  obtain ⟨sb, before, previous, hb⟩ := hload hbefore
  obtain ⟨sa, after, next, ha⟩ := hload hafter
  obtain ⟨ls, hshown⟩ := hb.shown hr
  obtain ⟨ls', hshown'⟩ := ha.shown hr
  have hstored : before.Stored := by
    rw [hshown.graph]
    exact hshown.lineage.stored.1
  have hstored' : after.Stored := by
    rw [hshown'.graph]
    exact hshown'.lineage.stored.1
  obtain ⟨layer, hlayer, _⟩ := LayerBuilder.layerBetween_ok hstored hstored' (by
    rw [← hshown.shows]
    exact Database.tuple_kept hshown.valid hstored' hshown'.admissible)
  exact ⟨sb, sa, before, after, previous, next, layer, hb, ha, hlayer,
    checkCommits_decides hr hb ha, checkLayer_decides hr hb ha hlayer⟩

end Runs

/-- A JSON library for schemas without objects. -/
def blankJson : JsonText := ⟨fun _ => [], fun _ => none⟩

/-- The bytes of the empty schema. -/
def emptySchema : Bytes := Storage.record "SCHEMA" []

theorem emptySchema_blob : SchemaBlob blankJson emptySchema := by
  refine ⟨{}, ⟨fun key object h => ?_, fun object h => ?_⟩, rfl⟩
  · obtain ⟨kind, name⟩ := key
    cases kind <;> simp [SchemaState.lookup] at h
  · exact absurd h List.not_mem_nil

/-- A repository with its root, and one with node 1 on the branch `main`. -/
def rooted : Repository :=
  match initializeRoot byDepth emptySchema ⟨none, none, 0⟩ with
  | .ok r => r
  | .error _ => {}

def created : Repository :=
  after [.allocate firstNode, .commit (nodeCommit "main".toList)] rooted

theorem created_reached : SchemaReaches byDepth blankJson created := by
  have hstep : Step byDepth rooted ([.allocate firstNode, .commit (nodeCommit "main".toList)],
      (savepoint (execAll byDepth [.allocate firstNode, .commit (nodeCommit "main".toList)])
        rooted).1) created := rfl
  refine ⟨emptySchema_blob, (show initializeRoot byDepth emptySchema ⟨none, none, 0⟩ = .ok rooted
    from rfl), .cons ⟨fun blob hblob => ?_, hstep⟩ (.nil created)⟩
  simp at hblob

/-- Where nothing may be created, the commit of a node is refused. -/
theorem writeRestrictions_exact_created :
    (∃ sb sa before after previous next layer,
      Loaded byDepth blankJson created [1] sb before previous ∧
      Loaded byDepth blankJson created [1, 1] sa after next ∧
      LayerBuilder.layerBetween before after = .ok layer ∧
      Decides Refused (created.checkCommits byDepth blankJson [1] [1, 1] { allowCreate := false })
        (Permitted { allowCreate := false } created.ids before after previous next) ∧
      Decides Refused (created.checkLayer byDepth blankJson [1] layer next { allowCreate := false })
        (Permitted { allowCreate := false } created.ids before after previous next)) ∧
      (created.checkCommits byDepth blankJson [1] [1, 1] { allowCreate := false }).isOk = false :=
  ⟨writeRestrictions_exact created_reached { allowCreate := false } (by decide +kernel)
    (by decide +kernel), by decide +kernel⟩

end Repository

end Lithograph.Version
