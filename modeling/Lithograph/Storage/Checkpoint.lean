/-
  File:      Lithograph/Storage/Checkpoint.lean
  Subject:   Checkpoints: the rows of a graph, made from the rows of layers by SQL alone
             (`storage/checkpoint.rs`).

  Left out: the counts kept for the planner, and the time of creation.

  * `decode_shows`: such rows are read as that graph.
-/
import Lithograph.Storage.View
import Lithograph.Storage.LayerRows

namespace Lithograph.Storage

open Std Library

/-! ## 1. Columns that are copied -/

theorem F64.numericEq_trans {a b c : F64} (hab : a.numericEq b = true)
    (hbc : b.numericEq c = true) : a.numericEq c = true := by
  unfold F64.numericEq at *
  simp only [Bool.and_eq_true, Bool.or_eq_true, Bool.not_eq_true', beq_iff_eq] at *
  obtain ⟨⟨ha, hb⟩, hab⟩ := hab
  obtain ⟨⟨_, hc⟩, hbc⟩ := hbc
  refine ⟨⟨ha, hc⟩, ?_⟩
  unfold F64.isZero at *
  rcases hab with hab | ⟨hza, hzb⟩
  · rw [hab]
    exact hbc
  · rcases hbc with hbc | ⟨_, hzc⟩
    · rw [hbc] at hzb
      exact Or.inr ⟨hza, hzb⟩
    · exact Or.inr ⟨hza, hzc⟩

theorem F64.not_nan_of_numericEq {a b : F64} (h : a.numericEq b = true) : a.isNan = false := by
  unfold F64.numericEq at h
  simp only [Bool.and_eq_true, Bool.not_eq_true'] at h
  exact h.1.1

/-- A REAL column copied into another one. -/
def RealColumn.twice (real : RealColumn) : RealColumn where
  keep x := real.keep (real.keep x)
  keeps x hx := by
    have hkeep := real.keeps x hx
    exact F64.numericEq_trans (real.keeps _ (F64.not_nan_of_numericEq hkeep)) hkeep

theorem PropertyColumns.kept_kept (real : RealColumn) (c : PropertyColumns) :
    (c.kept real).kept real = c.kept real.twice := by
  unfold kept
  rw [Option.map_map]
  rfl

theorem PropertyColumns.typeTag_fromValue {v : PropertyValue} {c : PropertyColumns}
    (h : fromValue v = .ok c) : c.typeTag = v.typeTag := by
  cases v with
  | boolean _ | integer _ | float _ | string _ | date _ | localDateTime _ _ | zonedDateTime _ =>
    cases h
    rfl
  | localTime _ | time _ _ | list _ | duration _ _ _ _ | point _ | vector _ | uuid _ =>
    obtain ⟨_, _, h⟩ := bind_eq_ok.mp h
    cases h
    rfl

theorem PropertyValue.typeTag_range (v : PropertyValue) : 1 ≤ v.typeTag ∧ v.typeTag ≤ 14 := by
  cases v <;> simp [typeTag]

/-! ## 2. The rows of a checkpoint -/

/-- The rows of one checkpoint in `_lithograph_cp_nodes` .. `_lithograph_cp_properties`, under
    their primary keys. -/
structure CheckpointRows where
  nodes : ExtTreeMap NodeId Unit := ∅
  labels : ExtTreeMap (NodeId × LabelId) Unit := ∅
  relationships : ExtTreeMap RelationshipId RelationshipRecord := ∅
  properties : ExtTreeMap PropertySlot PropertyColumns := ∅

/-- The constraints of the column `type_tag`. -/
def checkTypeTag (tag : Option Int) : StorageResult Int :=
  match tag with
  | none => .error (.constraint "NOT NULL constraint failed: _lithograph_cp_properties.type_tag")
  | some tag =>
    if 1 ≤ tag ∧ tag ≤ 14 then .ok tag
    else .error (.constraint "CHECK constraint failed: type_tag BETWEEN 1 AND 14")

/-- The property row of a layer as the row of a checkpoint: one more REAL column to keep. -/
def PropertyRow.toColumns (real : RealColumn) (row : PropertyRow) :
    StorageResult PropertyColumns := do
  let tag ← checkTypeTag row.typeTag
  pure (PropertyColumns.kept real { toPropertyPayload := row.payload, typeTag := tag })

section Delta

variable {K V D : Type} [Ord K] [TransOrd K] [LawfulEqOrd K]

/-- One row of `INSERT … SELECT … WHERE op = 1`. -/
def insertAdded (op : D → Int) (value : D → StorageResult V) (table : ExtTreeMap K V) (k : K)
    (row : D) : StorageResult (ExtTreeMap K V) :=
  if op row = 1 then do
    let v ← value row
    pure (table.insert k v)
  else pure table

/-- `DELETE … WHERE … IN (SELECT … WHERE op = 2)`, then `INSERT … SELECT … WHERE op = 1`. -/
def applyDelta (op : D → Int) (value : D → StorageResult V) (table : ExtTreeMap K V)
    (delta : ExtTreeMap K D) : StorageResult (ExtTreeMap K V) :=
  delta.foldlM (insertAdded op value)
    (table.filter fun k _ => !(delta[k]?.any fun row => op row == 2))

/-- What the row of a change leaves under its key. -/
def rowChange (op : D → Int) (value : D → StorageResult V) (row : D) : Option V :=
  if op row = 1 then (value row).toOption else none

theorem applyDelta_eq [DecidableEq K] {op : D → Int} {value : D → StorageResult V}
    (table : ExtTreeMap K V) {delta : ExtTreeMap K D}
    (hrows : ∀ (k : K) (row : D), delta[k]? = some row →
      (op row = 1 ∧ ∃ v, value row = .ok v) ∨ op row = 2) :
    applyDelta op value table delta =
      .ok (patch table (delta.map fun _ row => rowChange op value row)) := by
  have htotal : ∀ (acc : ExtTreeMap K V) (k : K) (row : D), delta[k]? = some row →
      ∃ acc', insertAdded op value acc k row = .ok acc' := by
    intro acc k row hrow
    unfold insertAdded
    rcases hrows k row hrow with ⟨hop, v, hv⟩ | hop
    · rw [if_pos hop, hv]
      exact ⟨_, rfl⟩
    · rw [hop, if_neg (by decide)]
      exact ⟨_, rfl⟩
  obtain ⟨result, hresult⟩ := foldlM_total (m := delta) htotal
    (s := table.filter fun k _ => !(delta[k]?.any fun row => op row == 2))
  have hstep : ∀ (acc : ExtTreeMap K V) (k : K) (row : D) acc', delta[k]? = some row →
      insertAdded op value acc k row = .ok acc' → ∀ j, acc'[j]? =
        if j = k then (if op row = 1 then (value row).toOption else acc[k]?) else acc[j]? := by
    intro acc k row acc' _ hstep j
    unfold insertAdded at hstep
    split at hstep
    · rename_i hop
      obtain ⟨v, hv, hstep⟩ := bind_eq_ok.mp hstep
      cases hstep
      rw [lookup_insert, if_pos hop, hv]
      rfl
    · cases hstep
      split
      · rename_i hj
        rw [hj]
      · rfl
  have hlook := foldlM_lookup (fun (acc : ExtTreeMap K V) k => acc[k]?)
    (fun _ row old => if op row = 1 then (value row).toOption else old) hstep hresult
  have hpatch : result = patch table (delta.map fun _ row => rowChange op value row) := by
    refine ExtTreeMap.ext_getElem? fun k => ?_
    rw [hlook k, getElem?_patch, ExtTreeMap.getElem?_map, ExtTreeMap.getElem?_filter']
    cases hrow : delta[k]? with
    | none => cases table[k]? <;> simp
    | some row =>
      unfold rowChange
      rcases hrows k row hrow with ⟨hop, _⟩ | hop
      · simp [hop]
      · cases table[k]? <;> simp [hop]
  unfold applyDelta
  rw [hresult, hpatch]

end Delta

namespace CheckpointRows

def applyLayer (real : RealColumn) (cp : CheckpointRows) (rows : LayerRows) :
    StorageResult CheckpointRows := do
  let nodes ← applyDelta id (fun _ => pure ()) cp.nodes rows.nodes
  let labels ← applyDelta id (fun _ => pure ()) cp.labels rows.labels
  let relationships ← applyDelta Prod.snd (fun row => pure row.1) cp.relationships
    rows.relationships
  let properties ← applyDelta PropertyRow.op (PropertyRow.toColumns real) cp.properties
    rows.properties
  pure { nodes, labels, relationships, properties }

/-- One property row, read. -/
def decodeProperty (properties : ExtTreeMap PropertySlot PropertyValue) (slot : PropertySlot)
    (columns : PropertyColumns) : StorageResult (ExtTreeMap PropertySlot PropertyValue) := do
  let value ← columns.toValue
  pure (properties.insert slot value)

/-- The rows as the readers decode them, all at once. -/
def decode (cp : CheckpointRows) : StorageResult GraphState := do
  let properties ← cp.properties.foldlM decodeProperty ∅
  pure { nodes := cp.nodes, labels := cp.labels, relationships := cp.relationships, properties }

/-! ## 3. What the rows show -/

/-- The rows read as a graph. -/
structure Shows (cp : CheckpointRows) (g : GraphState) : Prop where
  nodes : cp.nodes = g.nodes
  labels : cp.labels = g.labels
  relationships : cp.relationships = g.relationships
  properties : ∀ slot : PropertySlot,
    cp.properties[slot]?.map PropertyColumns.toValue = g.properties[slot]?.map .ok

theorem shows_empty : Shows {} {} := by
  refine ⟨rfl, rfl, rfl, fun slot => ?_⟩
  simp

theorem decode_shows {cp : CheckpointRows} {g : GraphState} (h : cp.Shows g) :
    cp.decode = .ok g := by
  have hvalue : ∀ (slot : PropertySlot) columns, cp.properties[slot]? = some columns →
      ∃ value, g.properties[slot]? = some value ∧ columns.toValue = .ok value := by
    intro slot columns hcolumns
    have hslot := h.properties slot
    rw [hcolumns, Option.map_some] at hslot
    cases hg : g.properties[slot]? with
    | none =>
      rw [hg] at hslot
      cases hslot
    | some value =>
      rw [hg] at hslot
      exact ⟨value, rfl, Option.some.inj hslot⟩
  have htotal : ∀ (acc : ExtTreeMap PropertySlot PropertyValue) slot columns,
      cp.properties[slot]? = some columns → ∃ acc', decodeProperty acc slot columns = .ok acc' := by
    intro acc slot columns hcolumns
    obtain ⟨value, _, hvalue⟩ := hvalue slot columns hcolumns
    exact ⟨acc.insert slot value, bind_eq_ok.mpr ⟨value, hvalue, rfl⟩⟩
  obtain ⟨properties, hproperties⟩ := foldlM_total (s := ∅) htotal
  have hstep : ∀ (acc : ExtTreeMap PropertySlot PropertyValue) slot columns acc',
      cp.properties[slot]? = some columns → decodeProperty acc slot columns = .ok acc' →
        ∀ j, acc'[j]? = if j = slot then g.properties[slot]? else acc[j]? := by
    intro acc slot columns acc' hcolumns hstep j
    obtain ⟨value, hg, hvalue⟩ := hvalue slot columns hcolumns
    unfold decodeProperty at hstep
    rw [hvalue] at hstep
    cases hstep
    rw [lookup_insert, hg]
  have hlook := foldlM_lookup (fun (m : ExtTreeMap PropertySlot PropertyValue) slot => m[slot]?)
    (fun slot _ _ => g.properties[slot]?) hstep hproperties
  have hsame : properties = g.properties := by
    refine ExtTreeMap.ext_getElem? fun slot => ?_
    rw [hlook slot]
    cases hcolumns : cp.properties[slot]? with
    | some columns => rfl
    | none =>
      have hslot := h.properties slot
      rw [hcolumns] at hslot
      cases hg : g.properties[slot]? with
      | none => simp
      | some value =>
        rw [hg] at hslot
        cases hslot
  unfold decode
  rw [hproperties, ok_bind, hsame, h.nodes, h.labels, h.relationships]
  rfl

end CheckpointRows

/-! ## 4. One more layer -/

namespace CheckpointRows

variable {real : RealColumn} {l : LayerBuilder} {rows : LayerRows}

theorem toColumns_rowOf {delta : PropertyDelta} (hbuilt : delta.Built)
    (h : PropertyRow.ofDelta real delta = .ok (LayerRows.rowOf real delta)) :
    ((LayerRows.rowOf real delta).op = 1 ∧ ∃ columns v,
      (LayerRows.rowOf real delta).toColumns real = .ok columns ∧
        delta.canonical.value = some v ∧ columns.toValue = .ok v) ∨
      ((LayerRows.rowOf real delta).op = 2 ∧ delta.canonical.value = none) := by
  obtain ⟨op, value⟩ := delta
  rcases hbuilt with ⟨hop, v, hvalue, hrange⟩ | ⟨hop, hvalue⟩
  · cases hop
    cases hvalue
    obtain ⟨columns, hcolumns, h⟩ := bind_eq_ok.mp h
    have hrow : LayerRows.rowOf real ⟨.add, some v⟩ =
        { op := 1
          typeTag := some columns.typeTag
          payload := (columns.kept real).toPropertyPayload } := (Except.ok.inj h).symm
    have htag := PropertyColumns.typeTag_fromValue hcolumns
    have hbounds := v.typeTag_range
    refine Or.inl ⟨by rw [hrow], columns.kept real.twice, v.canonical, ?_, rfl,
      PropertyColumns.toValue_fromValue real.twice hrange hcolumns⟩
    rw [hrow]
    unfold PropertyRow.toColumns checkTypeTag
    simp only
    rw [if_pos (by omega), ok_bind, ← PropertyColumns.kept_kept]
    rfl
  · cases hop
    cases hvalue
    refine Or.inr ⟨?_, rfl⟩
    rfl

theorem applyDelta_ops {K : Type} [Ord K] [TransOrd K] [LawfulEqOrd K] [DecidableEq K]
    (table : ExtTreeMap K Unit) (ops : ExtTreeMap K DeltaOp) :
    applyDelta id (fun _ => pure ()) table (ops.map fun _ (op : DeltaOp) => op.toInt) =
      .ok (patch table (ops.map fun _ (op : DeltaOp) => op.change)) := by
  have hrows : ∀ (k : K) (row : Int), (ops.map fun _ (op : DeltaOp) => op.toInt)[k]? = some row →
      (id row = 1 ∧ ∃ v, (fun _ : Int => (pure () : StorageResult Unit)) row = .ok v) ∨
        id row = 2 := by
    intro k row hrow
    rw [ExtTreeMap.getElem?_map] at hrow
    obtain ⟨op, _, rfl⟩ := Option.map_eq_some_iff.mp hrow
    cases op with
    | add => exact Or.inl ⟨rfl, (), rfl⟩
    | remove => exact Or.inr rfl
  rw [applyDelta_eq table hrows, ExtTreeMap.map_map]
  congr 3
  funext _ op
  cases op <;> rfl

theorem applyDelta_relationships (table : ExtTreeMap RelationshipId RelationshipRecord)
    (deltas : ExtTreeMap RelationshipId RelationshipDelta) :
    applyDelta Prod.snd (fun row => pure row.1) table
        (deltas.map fun _ (delta : RelationshipDelta) => (delta.record, delta.op.toInt)) =
      .ok (patch table (deltas.map fun _ (delta : RelationshipDelta) => delta.change)) := by
  have hrows : ∀ (id : RelationshipId) (row : RelationshipRecord × Int),
      (deltas.map fun _ (delta : RelationshipDelta) =>
        (delta.record, delta.op.toInt))[id]? = some row →
      (row.2 = 1 ∧ ∃ v, (fun row : RelationshipRecord × Int =>
        (pure row.1 : StorageResult RelationshipRecord)) row = .ok v) ∨ row.2 = 2 := by
    intro id row hrow
    rw [ExtTreeMap.getElem?_map] at hrow
    obtain ⟨⟨op, record⟩, _, rfl⟩ := Option.map_eq_some_iff.mp hrow
    cases op with
    | add => exact Or.inl ⟨rfl, record, rfl⟩
    | remove => exact Or.inr rfl
  rw [applyDelta_eq table hrows, ExtTreeMap.map_map]
  congr 3
  funext _ delta
  obtain ⟨op, record⟩ := delta
  cases op <;> rfl

theorem applyDelta_properties (hbuilt : l.Built)
    (hrow : ∀ (slot : PropertySlot) delta, l.properties[slot]? = some delta →
      PropertyRow.ofDelta real delta = .ok (LayerRows.rowOf real delta))
    {table : ExtTreeMap PropertySlot PropertyColumns}
    {values : ExtTreeMap PropertySlot PropertyValue} (h : ∀ slot : PropertySlot,
      table[slot]?.map PropertyColumns.toValue = values[slot]?.map .ok) :
    ∃ table', applyDelta PropertyRow.op (PropertyRow.toColumns real) table
        (l.properties.map fun _ delta => LayerRows.rowOf real delta) = .ok table' ∧
      ∀ slot : PropertySlot, table'[slot]?.map PropertyColumns.toValue =
        (patch values (l.canonical.properties.map fun _ delta => delta.value))[slot]?.map .ok := by
  have hrows : ∀ (slot : PropertySlot) (row : PropertyRow),
      (l.properties.map fun _ delta => LayerRows.rowOf real delta)[slot]? = some row →
      (row.op = 1 ∧ ∃ columns, row.toColumns real = .ok columns) ∨ row.op = 2 := by
    intro slot row hslot
    rw [ExtTreeMap.getElem?_map] at hslot
    obtain ⟨delta, hdelta, rfl⟩ := Option.map_eq_some_iff.mp hslot
    rcases toColumns_rowOf (hbuilt.properties slot delta hdelta).2.2 (hrow slot delta hdelta) with
      ⟨hop, columns, _, hcolumns, _⟩ | ⟨hop, _⟩
    · exact Or.inl ⟨hop, columns, hcolumns⟩
    · exact Or.inr hop
  refine ⟨_, applyDelta_eq table hrows, fun slot => ?_⟩
  have hcanonical : l.canonical.properties[slot]? =
      l.properties[slot]?.map PropertyDelta.canonical := ExtTreeMap.getElem?_map
  rw [getElem?_patch, getElem?_patch, ExtTreeMap.map_map, ExtTreeMap.getElem?_map,
    ExtTreeMap.getElem?_map, hcanonical]
  cases hdelta : l.properties[slot]? with
  | none => exact h slot
  | some delta =>
    simp only [Option.map_some, Option.getD_some]
    unfold rowChange
    rcases toColumns_rowOf (hbuilt.properties slot delta hdelta).2.2 (hrow slot delta hdelta) with
      ⟨hop, columns, v, hcolumns, hv, hvalue⟩ | ⟨hop, hv⟩
    · rw [if_pos hop, hcolumns, hv]
      exact congrArg some hvalue
    · rw [if_neg (by rw [hop]; decide), hv]
      rfl

/-- **The rows of a layer, applied to rows that read as a graph, read as the graph after it.** -/
theorem applyLayer_persisted (hbuilt : l.Built) (hrows : LayerRows.ofLayer real l = .ok rows)
    {cp : CheckpointRows} {g : GraphState} (h : cp.Shows g) :
    ∃ cp', cp.applyLayer real rows = .ok cp' ∧ cp'.Shows (g.apply l.canonical) := by
  obtain ⟨properties, hproperties, hrows⟩ := bind_eq_ok.mp hrows
  cases hrows
  obtain ⟨hmap, hrow⟩ := LayerRows.properties_ofLayer hproperties
  obtain ⟨table, htable, hvalues⟩ := applyDelta_properties hbuilt hrow h.properties
  refine ⟨{ nodes := (g.apply l.canonical).nodes
            labels := (g.apply l.canonical).labels
            relationships := (g.apply l.canonical).relationships
            properties := table }, ?_, rfl, rfl, rfl, hvalues⟩
  unfold applyLayer
  simp only [hmap, LayerRows.relationships_ofLayer hbuilt, applyDelta_ops,
    applyDelta_relationships, htable, h.nodes, h.labels, h.relationships, ok_bind]
  rfl

end CheckpointRows

end Lithograph.Storage
