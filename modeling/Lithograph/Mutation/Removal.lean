/-
  File:      Lithograph/Mutation/Removal.lean
  Subject:   Taking facts out of the graph a statement stages (`query/mutation/execute/context.rs`).

  * **`runCalls_removals`**: any list of removals, in any order and with repetitions.
-/
import Lithograph.Library.Clearing
import Lithograph.Mutation.NetDelta
import Lithograph.Storage.SparseLayer
import Lithograph.Storage.StagedIndex

namespace Lithograph.Storage

open Std Library

/-! ## 1. Facts -/

/-- The key of one fact of a graph. -/
inductive Fact where
  | node (id : NodeId)
  | label (row : NodeId × LabelId)
  | relationship (id : RelationshipId)
  | property (slot : PropertySlot)

namespace Fact

/-- What a graph says of a fact. -/
@[reducible] def Value : Fact → Type
  | .node _ => Unit
  | .label _ => Unit
  | .relationship _ => RelationshipRecord
  | .property _ => PropertyValue

def read : (fact : Fact) → GraphState → Option fact.Value
  | .node id, g => g.nodes[id]?
  | .label row, g => g.labels[row]?
  | .relationship id, g => g.relationships[id]?
  | .property slot, g => g.properties[slot]?

/-- The identifiers a removal checks. -/
def Positive : Fact → Prop
  | .node id => 0 < id
  | .label row => 0 < row.1 ∧ 0 < row.2
  | .relationship _ => True
  | .property slot => 0 < slot.2.1 ∧ 0 < slot.2.2

theorem graph_ext {g g' : GraphState} (h : ∀ fact : Fact, fact.read g = fact.read g') : g = g' :=
  GraphState.ext_facts (fun id => h (.node id)) (fun row => h (.label row))
    (fun id => h (.relationship id)) fun slot => h (.property slot)

end Fact

/-- A layer that only takes out. -/
structure LayerBuilder.Removes (l : LayerBuilder) : Prop where
  nodes : ∀ (id : NodeId) op, l.nodes[id]? = some op → op = .remove
  labels : ∀ (row : NodeId × LabelId) op, l.labels[row]? = some op → op = .remove ∧ 0 < row.2
  relationships : ∀ (id : RelationshipId) delta, l.relationships[id]? = some delta →
    delta.op = .remove ∧ delta.record.id = id
  properties : ∀ (slot : PropertySlot) delta, l.properties[slot]? = some delta →
    delta = ⟨.remove, none⟩ ∧ 0 < slot.2.2

/-- A layer has an entry for a fact. -/
def LayerBuilder.Names (l : LayerBuilder) : Fact → Prop
  | .node id => l.nodes[id]? ≠ none
  | .label row => l.labels[row]? ≠ none
  | .relationship id => l.relationships[id]? ≠ none
  | .property slot => l.properties[slot]? ≠ none

namespace LayerBuilder.Removes

variable {l : LayerBuilder}

theorem formed (h : l.Removes) : l.Formed where
  labels row op hop := (h.labels row op hop).2
  keyed id delta hdelta := (h.relationships id delta hdelta).2
  keys slot delta hdelta := (h.properties slot delta hdelta).2
  values slot delta hdelta := by
    rw [(h.properties slot delta hdelta).1]
    decide

theorem hashed (h : l.Removes) : ∃ bytes, l.hashedBytes = .ok bytes := by
  refine LayerBuilder.hashedBytes_of_hashable (g := {}) (fun slot value hvalue => ?_)
    fun slot delta hdelta => .inl (h.properties slot delta hdelta).1
  simp at hvalue

/-- **A layer of removals takes out what it names.** -/
theorem clears_apply (h : l.Removes) (g : GraphState) : Clears Fact.read l.Names g (g.apply l) := by
  refine ⟨fun fact hfact => ?_, fun fact hfact => ?_⟩
  · cases fact with
    | node id =>
      obtain ⟨op, hop⟩ := Option.ne_none_iff_exists'.mp hfact
      show (g.apply l).nodes[id]? = none
      rw [GraphState.nodes_apply, hop, h.nodes id op hop]
      rfl
    | label row =>
      obtain ⟨op, hop⟩ := Option.ne_none_iff_exists'.mp hfact
      show (g.apply l).labels[row]? = none
      rw [GraphState.labels_apply, hop, (h.labels row op hop).1]
      rfl
    | relationship id =>
      obtain ⟨delta, hdelta⟩ := Option.ne_none_iff_exists'.mp hfact
      have hchange : delta.change = none := by
        unfold RelationshipDelta.change
        rw [(h.relationships id delta hdelta).1]
        rfl
      show (g.apply l).relationships[id]? = none
      rw [GraphState.relationships_apply, hdelta]
      exact hchange
    | property slot =>
      obtain ⟨delta, hdelta⟩ := Option.ne_none_iff_exists'.mp hfact
      show (g.apply l).properties[slot]? = none
      rw [GraphState.properties_apply, hdelta, (h.properties slot delta hdelta).1]
      rfl
  · cases fact with
    | node id =>
      have hnone : l.nodes[id]? = none := not_not.mp hfact
      show (g.apply l).nodes[id]? = g.nodes[id]?
      rw [GraphState.nodes_apply, hnone]
      rfl
    | label row =>
      have hnone : l.labels[row]? = none := not_not.mp hfact
      show (g.apply l).labels[row]? = g.labels[row]?
      rw [GraphState.labels_apply, hnone]
      rfl
    | relationship id =>
      have hnone : l.relationships[id]? = none := not_not.mp hfact
      show (g.apply l).relationships[id]? = g.relationships[id]?
      rw [GraphState.relationships_apply, hnone]
      rfl
    | property slot =>
      have hnone : l.properties[slot]? = none := not_not.mp hfact
      show (g.apply l).properties[slot]? = g.properties[slot]?
      rw [GraphState.properties_apply, hnone]
      rfl

end LayerBuilder.Removes

end Lithograph.Storage

namespace Lithograph.Mutation

open Std Library Storage Query

/-! ## 2. A context fit for removals -/

/-- **A statement under way**: its delta and its staged snapshot agree, and the latter can be
    scanned. -/
structure Ready (ctx : MutationContext) : Prop where
  coupled : Coupled ctx
  stable : ctx.staged.Stable
  positive : ∀ fact : Fact, fact.read ctx.staged.graph ≠ none → fact.Positive

/-- **The second context stages the graph of the first less the facts that are gone.** -/
structure Goes (gone : Fact → Prop) (ctx ctx' : MutationContext) : Prop where
  clears : Clears Fact.read gone ctx.staged.graph ctx'.staged.graph
  allowed : ∀ fact : Fact, gone fact → fact.read ctx.staged.graph ≠ none →
    ctx.access.allowDelete = true
  ready : Ready ctx'
  access : ctx'.access = ctx.access
  base : ctx'.base = ctx.base

section Goes

variable {ctx ctx' ctx'' : MutationContext} {gone gone' : Fact → Prop}

theorem goes_refl (h : Ready ctx) : Goes (fun _ => False) ctx ctx :=
  ⟨clears_refl _, fun _ hgone => hgone.elim, h, rfl, rfl⟩

theorem Goes.trans (h : Goes gone ctx ctx') (h' : Goes gone' ctx' ctx'') :
    Goes (fun fact => gone fact ∨ gone' fact) ctx ctx'' := by
  refine ⟨h.clears.trans h'.clears, fun fact hfact hread => ?_, h'.ready,
    h'.access.trans h.access, h'.base.trans h.base⟩
  by_cases hgone : gone fact
  · exact h.allowed fact hgone hread
  · rw [← h.access]
    refine h'.allowed fact (hfact.resolve_left hgone) ?_
    rw [h.clears.kept fact hgone]
    exact hread

theorem Goes.widen (h : Goes gone ctx ctx') (hsub : ∀ fact, gone fact → gone' fact)
    (habsent : ∀ fact : Fact, gone' fact → gone fact ∨ fact.read ctx.staged.graph = none) :
    Goes gone' ctx ctx' :=
  ⟨h.clears.widen hsub habsent, fun fact hfact hread =>
    h.allowed fact ((habsent fact hfact).resolve_right hread) hread, h.ready, h.access, h.base⟩

theorem Goes.congr (h : Goes gone ctx ctx') (hiff : ∀ fact, gone fact ↔ gone' fact) :
    Goes gone' ctx ctx' :=
  h.widen (fun fact => (hiff fact).mp) fun fact hfact => .inl ((hiff fact).mpr hfact)

end Goes

/-! ## 3. One removal -/

/-- The call that takes a fact out. -/
def removal : Fact → MutationCall
  | .node id => .setNode id false
  | .label row => .setLabelForDelete row.1 row.2 false
  | .relationship id => .setRelationship id none
  | .property slot => .setPropertyForDelete slot none

variable {ctx : MutationContext}

theorem stage_removes (hr : Ready ctx) {l : LayerBuilder} (hl : l.Removes)
    (htuples : ∀ (id : RelationshipId) delta, l.relationships[id]? = some delta →
      ctx.staged.graph.relationships[id]? = some delta.record) (delta : DeltaBuilder) :
    { ctx with delta }.applyStagedLayer l =
        .ok { ctx with delta, staged := ctx.staged.applyLayer l } ∧
      (ctx.staged.applyLayer l).Stable ∧
      Clears Fact.read l.Names ctx.staged.graph (ctx.staged.applyLayer l).graph := by
  refine ⟨MutationContext.applyStagedLayer_ok.mpr ⟨hl.hashed, rfl⟩, ?_, ?_⟩
  · exact hr.stable.applyLayer hl.formed fun id record d hrecord hd =>
      hr.stable.base_record hrecord (htuples id d hd)
  · rw [Snapshot.graph_applyLayer]
    exact hl.clears_apply _

/-- The layer such a call stages. -/
def removalLayer (staged : Snapshot) : Fact → LayerBuilder
  | .node id => .ofNode id false
  | .label row => .ofLabel row.1 row.2 false
  | .relationship id => MutationContext.relationshipLayer (staged.relationship id) none
  | .property slot => .ofProperty slot none

theorem entry_eq {K V : Type} [Ord K] [TransOrd K] [LawfulEqOrd K] [DecidableEq K] {k j : K}
    {v w : V} (h : ((∅ : ExtTreeMap K V).insert k v)[j]? = some w) : j = k ∧ w = v := by
  rw [lookup_insert] at h
  by_cases hj : j = k
  · rw [if_pos hj] at h
    exact ⟨hj, (Option.some.inj h).symm⟩
  · rw [if_neg hj] at h
    simp at h

theorem entry_iff {K V : Type} [Ord K] [TransOrd K] [LawfulEqOrd K] [DecidableEq K] {k j : K}
    {v : V} : ((∅ : ExtTreeMap K V).insert k v)[j]? ≠ none ↔ j = k := by
  rw [lookup_insert]
  by_cases hj : j = k <;> simp [hj]

theorem relationshipLayer_entry {previous : Option RelationshipRecord} {j : RelationshipId} :
    (MutationContext.relationshipLayer previous none).relationships[j]? =
      (previous.filter (·.id = j)).map (⟨.remove, ·⟩) := by
  cases previous with
  | none => simp [MutationContext.relationshipLayer]
  | some record =>
    show ((∅ : ExtTreeMap RelationshipId RelationshipDelta).insert record.id
      ⟨.remove, record⟩)[j]? = _
    by_cases hj : record.id = j
    · simp [hj]
    · simp [hj]

variable {staged : Snapshot} {fact : Fact}

theorem removalLayer_removes (hpos : fact.Positive) : (removalLayer staged fact).Removes := by
  cases fact with
  | node id =>
    refine ⟨fun j op h => (entry_eq h).2, fun j op h => ?_, fun j d h => ?_, fun j d h => ?_⟩ <;>
      simp [removalLayer, LayerBuilder.ofNode] at h
  | label row =>
    refine ⟨fun j op h => ?_, fun j op h => ?_, fun j d h => ?_, fun j d h => ?_⟩
    · simp [removalLayer, LayerBuilder.ofLabel] at h
    · obtain ⟨rfl, rfl⟩ := entry_eq h
      exact ⟨rfl, hpos.2⟩
    · simp [removalLayer, LayerBuilder.ofLabel] at h
    · simp [removalLayer, LayerBuilder.ofLabel] at h
  | relationship id =>
    obtain ⟨hnodes, hlabels, hproperties⟩ :=
      MutationContext.relationshipLayer_silent (staged.relationship id) none
    refine ⟨fun j op h => ?_, fun j op h => ?_, fun j d h => ?_, fun j d h => ?_⟩
    · have h' := hnodes ▸ h
      simp at h'
    · have h' := hlabels ▸ h
      simp at h'
    · have h' := relationshipLayer_entry ▸ h
      obtain ⟨record, hrecord, rfl⟩ := Option.map_eq_some_iff.mp h'
      exact ⟨rfl, by simpa using (Option.filter_eq_some_iff.mp hrecord).2⟩
    · have h' := hproperties ▸ h
      simp at h'
  | property slot =>
    refine ⟨fun j op h => ?_, fun j op h => ?_, fun j d h => ?_, fun j d h => ?_⟩
    · simp [removalLayer, LayerBuilder.ofProperty] at h
    · simp [removalLayer, LayerBuilder.ofProperty] at h
    · simp [removalLayer, LayerBuilder.ofProperty] at h
    · obtain ⟨rfl, rfl⟩ := entry_eq h
      exact ⟨rfl, hpos.2⟩

theorem removalLayer_tuples (hkeyed : staged.WellFormed) {id : RelationshipId}
    {delta : RelationshipDelta} (h : (removalLayer staged fact).relationships[id]? = some delta) :
    staged.graph.relationships[id]? = some delta.record := by
  cases fact with
  | node _ => simp [removalLayer, LayerBuilder.ofNode] at h
  | label _ => simp [removalLayer, LayerBuilder.ofLabel] at h
  | relationship removed =>
    have h' := relationshipLayer_entry ▸ h
    obtain ⟨record, hrecord, rfl⟩ := Option.map_eq_some_iff.mp h'
    obtain ⟨hread, hid⟩ := Option.filter_eq_some_iff.mp hrecord
    have hremoved := hkeyed.keyed removed record hread
    have hsame : removed = id := hremoved.symm.trans (by simpa using hid)
    rw [← hsame, ← Snapshot.relationship_eq]
    exact hread
  | property _ => simp [removalLayer, LayerBuilder.ofProperty] at h

theorem removalLayer_names (hkeyed : staged.WellFormed) {other : Fact} :
    ((removalLayer staged fact).Names other → other = fact) ∧
      (other = fact → (removalLayer staged fact).Names other ∨ other.read staged.graph = none) := by
  cases fact with
  | node id =>
    refine ⟨fun h => ?_, fun h => .inl ?_⟩
    · cases other with
      | node j => rw [entry_iff.mp h]
      | label _ => simp [removalLayer, LayerBuilder.ofNode, LayerBuilder.Names] at h
      | relationship _ => simp [removalLayer, LayerBuilder.ofNode, LayerBuilder.Names] at h
      | property _ => simp [removalLayer, LayerBuilder.ofNode, LayerBuilder.Names] at h
    · rw [h]
      exact entry_iff.mpr rfl
  | label row =>
    refine ⟨fun h => ?_, fun h => .inl ?_⟩
    · cases other with
      | node _ => simp [removalLayer, LayerBuilder.ofLabel, LayerBuilder.Names] at h
      | label j => rw [entry_iff.mp h]
      | relationship _ => simp [removalLayer, LayerBuilder.ofLabel, LayerBuilder.Names] at h
      | property _ => simp [removalLayer, LayerBuilder.ofLabel, LayerBuilder.Names] at h
    · rw [h]
      exact entry_iff.mpr rfl
  | relationship id =>
    obtain ⟨hnodes, hlabels, hproperties⟩ :=
      MutationContext.relationshipLayer_silent (staged.relationship id) none
    refine ⟨fun h => ?_, fun h => ?_⟩
    · cases other with
      | node _ => simp [removalLayer, LayerBuilder.Names, hnodes] at h
      | label _ => simp [removalLayer, LayerBuilder.Names, hlabels] at h
      | relationship j =>
        obtain ⟨delta, hdelta⟩ := Option.ne_none_iff_exists'.mp h
        obtain ⟨record, hrecord, _⟩ := Option.map_eq_some_iff.mp (relationshipLayer_entry ▸ hdelta)
        obtain ⟨hread, hid⟩ := Option.filter_eq_some_iff.mp hrecord
        have hj : record.id = j := by simpa using hid
        rw [← hj, hkeyed.keyed id record hread]
      | property _ => simp [removalLayer, LayerBuilder.Names, hproperties] at h
    · rw [h]
      cases hprevious : staged.relationship id with
      | none =>
        refine .inr ?_
        rw [Snapshot.relationship_eq] at hprevious
        exact hprevious
      | some record =>
        refine .inl ?_
        have hid := hkeyed.keyed id record hprevious
        show (MutationContext.relationshipLayer (staged.relationship id) none).relationships[id]? ≠ _
        rw [relationshipLayer_entry, hprevious]
        simp [hid]
  | property slot =>
    refine ⟨fun h => ?_, fun h => .inl ?_⟩
    · cases other with
      | node _ => simp [removalLayer, LayerBuilder.ofProperty, LayerBuilder.Names] at h
      | label _ => simp [removalLayer, LayerBuilder.ofProperty, LayerBuilder.Names] at h
      | relationship _ => simp [removalLayer, LayerBuilder.ofProperty, LayerBuilder.Names] at h
      | property j => rw [entry_iff.mp h]
    · rw [h]
      exact entry_iff.mpr rfl

theorem runCall_removal_eq {ctx : MutationContext} (hkeyed : ctx.staged.WellFormed)
    (hallow : ctx.access.allowDelete = true) (hpos : fact.Positive) :
    ∃ delta, runCall ctx (removal fact) =
      { ctx with delta }.applyStagedLayer (removalLayer ctx.staged fact) := by
  have hdelete : ctx.requireDelete = .ok () := by
    rw [MutationContext.requireDelete, refuseWhen_ok, hallow]
    rfl
  cases fact with
  | node id =>
    refine ⟨ctx.delta.setNode ctx.base id false, ?_⟩
    have hlayer : ({} : LayerBuilder).removeNode id = .ok (.ofNode id false) :=
      LayerBuilder.removeNode_ok.mpr ⟨hpos, rfl⟩
    show ctx.setNode id false = _
    unfold MutationContext.setNode
    rw [hdelete]
    simp only [hlayer, ofStorage]
    rfl
  | label row =>
    have hlayer : ({} : LayerBuilder).removeLabel row.1 row.2 = .ok (.ofLabel row.1 row.2 false) :=
      LayerBuilder.removeLabel_ok.mpr ⟨hpos, rfl⟩
    refine ⟨ctx.delta.setLabel ctx.base row.1 row.2 false, ?_⟩
    show ctx.setLabelForDelete row.1 row.2 false = _
    unfold MutationContext.setLabelForDelete
    simp only [hlayer, ofStorage]
    rfl
  | relationship id =>
    refine ⟨ctx.delta.setRelationship ctx.base id none, ?_⟩
    show ctx.setRelationship id none = MutationContext.applyStagedLayer _
      (MutationContext.relationshipLayer (ctx.staged.relationship id) none)
    unfold MutationContext.setRelationship
    rw [hdelete]
    cases hprevious : ctx.staged.relationship id with
    | none => rfl
    | some record =>
      have hlayer : ({} : LayerBuilder).removeRelationship record =
          .ok (.ofRelationship record .remove) :=
        LayerBuilder.removeRelationship_ok.mpr ⟨hkeyed.positive id record hprevious, rfl⟩
      simp only [hlayer, ofStorage]
      rfl
  | property slot =>
    have hlayer : ({} : LayerBuilder).removeProperty slot.1 slot.2.1 slot.2.2 =
        .ok (.ofProperty slot none) := LayerBuilder.removeProperty_ok.mpr ⟨hpos, rfl⟩
    refine ⟨ctx.delta.setProperty ctx.base slot none, ?_⟩
    show ctx.setPropertyForDelete slot none = _
    unfold MutationContext.setPropertyForDelete
    simp only [hlayer, ofStorage]
    rfl

/-- **One removal is accepted.** -/
theorem runCall_removal (hr : Ready ctx) (hallow : ctx.access.allowDelete = true)
    (hpos : fact.Positive) :
    ∃ ctx', runCall ctx (removal fact) = .ok ctx' ∧ Goes (· = fact) ctx ctx' := by
  have hkeyed := hr.coupled.staged
  have hl : (removalLayer ctx.staged fact).Removes := removalLayer_removes hpos
  obtain ⟨delta, hcall⟩ := runCall_removal_eq hkeyed hallow hpos
  obtain ⟨hrun, hstable, hclears⟩ :=
    stage_removes hr hl (fun _ _ => removalLayer_tuples hkeyed) delta
  rw [hrun] at hcall
  have hallocated : (removal fact).Allocated ctx.base := by
    cases fact <;> exact trivial
  have hclears' : Clears Fact.read (· = fact) ctx.staged.graph _ :=
    hclears.widen (fun other => (removalLayer_names hkeyed).1)
      fun other => (removalLayer_names hkeyed).2
  refine ⟨_, hcall, hclears', fun _ _ _ => hallow, ⟨runCall_coupled hr.coupled hallocated hcall,
    hstable, fun other hother => hr.positive other fun hnone => hother (hclears.absent hnone)⟩,
    rfl, rfl⟩

/-- **Removals are accepted.** -/
theorem runCalls_removals : ∀ (facts : List Fact) {ctx : MutationContext}, Ready ctx →
    ctx.access.allowDelete = true → (∀ fact ∈ facts, fact.Positive) →
    ∃ ctx', runCalls ctx (facts.map removal) = .ok ctx' ∧ Goes (· ∈ facts) ctx ctx'
  | [], ctx, hr, _, _ => ⟨ctx, rfl, (goes_refl hr).congr fun fact => by simp⟩
  | fact :: facts, ctx, hr, hallow, hpos => by
    obtain ⟨mid, hfirst, hmid⟩ := runCall_removal hr hallow (hpos fact (.head _))
    have hallow' : mid.access.allowDelete = true := by
      rw [hmid.access]
      exact hallow
    obtain ⟨ctx', hrest, hgoes⟩ := runCalls_removals facts hmid.ready hallow' fun other hother =>
      hpos other (List.mem_cons_of_mem fact hother)
    refine ⟨ctx', ?_, (hmid.trans hgoes).congr fun other => List.mem_cons.symm⟩
    unfold runCalls at hrest ⊢
    rw [List.map_cons, List.foldlM_cons, hfirst, ok_bind]
    exact hrest

/-- **All that a snapshot had of some facts is taken out.** -/
theorem runCalls_gone {start ctx : MutationContext} {had gone : Fact → Prop} {facts : List Fact}
    (hstart : Ready start) (h : Goes had start ctx) (hallow : start.access.allowDelete = true)
    (hmem : ∀ fact : Fact, fact ∈ facts ↔ gone fact ∧ fact.read start.staged.graph ≠ none) :
    ∃ ctx', runCalls ctx (facts.map removal) = .ok ctx' ∧
      Goes (fun fact => had fact ∨ gone fact) start ctx' := by
  have hallow' : ctx.access.allowDelete = true := by
    rw [h.access]
    exact hallow
  obtain ⟨ctx', hrun, hgoes⟩ := runCalls_removals facts h.ready hallow' fun fact hfact =>
    hstart.positive fact ((hmem fact).mp hfact).2
  refine ⟨ctx', hrun, (h.trans hgoes).widen (fun fact hfact => ?_) fun fact hfact => ?_⟩
  · exact hfact.imp_right fun hin => ((hmem fact).mp hin).1
  · by_cases hread : fact.read start.staged.graph = none
    · exact .inr hread
    · exact .inl (hfact.imp_right fun hgone => (hmem fact).mpr ⟨hgone, hread⟩)

end Lithograph.Mutation
