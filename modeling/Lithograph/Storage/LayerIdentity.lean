/-
  File:      Lithograph/Storage/LayerIdentity.lean
  Subject:   The bytes of a layer name its changes (`storage/layer.rs`).
-/
import Lithograph.Storage.LayerRows

namespace Lithograph.Storage

open Std Library

/-! ## 1. Records are told apart -/

/-- A record of any domain: the name of the domain and the fields. -/
def recordReader : ByteReader (Bytes × List Bytes) := do
  let _ ← take 4
  let domainLen ← readUleb
  let domain ← take domainLen
  let count ← fieldCount
  let fields ← times nextField count
  pure (domain, fields)

theorem recordReader_reads {domain : String} {fields : List Bytes}
    (hdomain : (Text.utf8 domain.toList).length < 2 ^ 64) (hsize : Sized fields) :
    Reads recordReader (Text.utf8 domain.toList, fields) (record domain fields) := by
  have hmagic := take_reads (Text.utf8 "LCE1".toList)
  have hcounted : Reads (fieldCount >>= fun count => times nextField count >>= fun fields =>
      pure (Text.utf8 domain.toList, fields)) (Text.utf8 domain.toList, fields)
      (encodeCounted fields) := by
    refine counted_reads hsize.count ?_
    exact (reads_times fun f hf => nextField_reads (hsize.each f hf)).map
      (fun fields => (Text.utf8 domain.toList, fields))
  have hname := (take_reads (Text.utf8 domain.toList)).bind (k := fun domain =>
    fieldCount >>= fun count => times nextField count >>= fun fields => pure (domain, fields))
    hcounted
  have hall := hmagic.bind (k := fun _ => _) ((readUleb_reads hdomain).bind (k := fun domainLen =>
    take domainLen >>= fun domain => fieldCount >>= fun count =>
      times nextField count >>= fun fields => pure (domain, fields)) hname)
  rw [record_eq]
  unfold headerBytes
  rw [List.append_assoc, List.append_assoc]
  exact hall

variable {fields properties : List Bytes} {bytes : Bytes} {slot : PropertySlot} {l : LayerBuilder}

theorem record_inj {domain domain' : String} {fields' : List Bytes}
    (hdomain : (Text.utf8 domain.toList).length < 2 ^ 64)
    (hdomain' : (Text.utf8 domain'.toList).length < 2 ^ 64) (hsize : Sized fields)
    (hsize' : Sized fields') (h : record domain fields = record domain' fields') :
    Text.utf8 domain.toList = Text.utf8 domain'.toList ∧ fields = fields' := by
  have hparts := (recordReader_reads hdomain hsize).unique (recordReader_reads hdomain' hsize')
    (s := []) (t := []) (by rw [List.append_nil, List.append_nil, h])
  exact Prod.mk.inj hparts.1

/-- A record of one domain, its fields of machine sizes. -/
def IsRecord (domain : String) (bytes : Bytes) : Prop :=
  ∃ fields, Sized fields ∧ bytes = record domain fields

theorem isRecord_ne {domain domain' : String} (h : IsRecord domain bytes)
    (hdomain : (Text.utf8 domain.toList).length < 2 ^ 64)
    (hdomain' : (Text.utf8 domain'.toList).length < 2 ^ 64)
    (hne : Text.utf8 domain.toList ≠ Text.utf8 domain'.toList) : ¬ IsRecord domain' bytes := by
  rintro ⟨fields', hsize', heq⟩
  obtain ⟨fields, hsize, rfl⟩ := h
  exact hne (record_inj hdomain hdomain' hsize hsize' heq).1

/-! ## 2. The fields of one change -/

theorem i64Bytes_inj {a b : Int} (ha : IsI64 a) (hb : IsI64 b) (h : i64Bytes a = i64Bytes b) :
    a = b := by
  have hdecode := decodeI64_i64Bytes ha
  rw [h, decodeI64_i64Bytes hb] at hdecode
  exact (Except.ok.inj hdecode).symm

theorem IsId.isI64 {id : Int} (h : IsId id) : IsI64 id := by
  unfold IsId at h
  unfold IsI64
  omega

theorem DeltaOp.isI64 (op : DeltaOp) : IsI64 op.toInt := by
  cases op <;> exact ⟨by decide, by decide⟩

theorem OwnerKind.isI64 (kind : OwnerKind) : IsI64 kind.toInt := by
  cases kind <;> exact ⟨by decide, by decide⟩

theorem DeltaOp.toInt_inj {a b : DeltaOp} (h : i64Bytes a.toInt = i64Bytes b.toInt) : a = b := by
  have hint := i64Bytes_inj a.isI64 b.isI64 h
  cases a <;> cases b <;> first | rfl | cases hint

theorem OwnerKind.i64Bytes_inj {a b : OwnerKind} (h : i64Bytes a.toInt = i64Bytes b.toInt) :
    a = b := OwnerKind.toInt_inj (Storage.i64Bytes_inj a.isI64 b.isI64 h)

theorem length_i64Bytes (value : Int) : (i64Bytes value).length = 8 := leBytes_length _ _

theorem sized_i64 {values : List Int} (h : values.length ≤ 5) : Sized (values.map i64Bytes) where
  count := by
    rw [List.length_map]
    omega
  each f hf := by
    obtain ⟨value, _, rfl⟩ := List.mem_map.mp hf
    rw [length_i64Bytes]
    decide

theorem optionalBytes_inj {a b : Option Bytes} (h : optionalBytes a = optionalBytes b) : a = b := by
  cases a <;> cases b <;> first | rfl | (simp [optionalBytes] at h; try exact congrArg some h)

namespace LayerBuilder

theorem nodeRecord_isRecord (id : NodeId) (op : DeltaOp) : IsRecord "NODE" (nodeRecord id op) :=
  ⟨_, @sized_i64 [id, op.toInt] (by simp), rfl⟩

theorem labelRecord_isRecord (node : NodeId) (label : LabelId) (op : DeltaOp) :
    IsRecord "LABEL" (labelRecord node label op) :=
  ⟨_, @sized_i64 [node, label, op.toInt] (by simp), rfl⟩

theorem relationshipRecord_isRecord (delta : RelationshipDelta) :
    IsRecord "REL" (relationshipRecord delta) :=
  ⟨_, @sized_i64 [delta.record.id, delta.record.source, delta.record.typeId,
    delta.record.target, delta.op.toInt] (by simp), rfl⟩

theorem nodeRecord_inj {id id' : NodeId} {op op' : DeltaOp} (hid : IsId id) (hid' : IsId id')
    (h : nodeRecord id op = nodeRecord id' op') : id = id' ∧ op = op' := by
  have hfields := (record_inj (by decide) (by decide) (@sized_i64 [id, op.toInt] (by simp))
    (@sized_i64 [id', op'.toInt] (by simp)) h).2
  simp only [List.map_cons, List.map_nil, List.cons.injEq, and_true] at hfields
  exact ⟨i64Bytes_inj hid.isI64 hid'.isI64 hfields.1, DeltaOp.toInt_inj hfields.2⟩

theorem labelRecord_inj {row row' : NodeId × LabelId} {op op' : DeltaOp}
    (hrow : IsId row.1 ∧ IsId row.2) (hrow' : IsId row'.1 ∧ IsId row'.2)
    (h : labelRecord row.1 row.2 op = labelRecord row'.1 row'.2 op') : row = row' ∧ op = op' := by
  have hfields := (record_inj (by decide) (by decide)
    (@sized_i64 [row.1, row.2, op.toInt] (by simp))
    (@sized_i64 [row'.1, row'.2, op'.toInt] (by simp)) h).2
  simp only [List.map_cons, List.map_nil, List.cons.injEq, and_true] at hfields
  exact ⟨Prod.ext (i64Bytes_inj hrow.1.isI64 hrow'.1.isI64 hfields.1)
    (i64Bytes_inj hrow.2.isI64 hrow'.2.isI64 hfields.2.1), DeltaOp.toInt_inj hfields.2.2⟩

theorem relationshipRecord_inj {d d' : RelationshipDelta}
    (hd : IsId d.record.id ∧ IsId d.record.source ∧ IsId d.record.typeId ∧ IsId d.record.target)
    (hd' : IsId d'.record.id ∧ IsId d'.record.source ∧ IsId d'.record.typeId ∧
      IsId d'.record.target)
    (h : relationshipRecord d = relationshipRecord d') : d = d' := by
  have hfields := (record_inj (by decide) (by decide)
    (@sized_i64 [d.record.id, d.record.source, d.record.typeId, d.record.target, d.op.toInt]
      (by simp))
    (@sized_i64 [d'.record.id, d'.record.source, d'.record.typeId, d'.record.target,
      d'.op.toInt] (by simp)) h).2
  simp only [List.map_cons, List.map_nil, List.cons.injEq, and_true] at hfields
  obtain ⟨hid, hsource, htype, htarget, hop⟩ := hfields
  obtain ⟨op, id, source, typeId, target⟩ := d
  have hid := i64Bytes_inj hd.1.isI64 hd'.1.isI64 hid
  have hsource := i64Bytes_inj hd.2.1.isI64 hd'.2.1.isI64 hsource
  have htype := i64Bytes_inj hd.2.2.1.isI64 hd'.2.2.1.isI64 htype
  have htarget := i64Bytes_inj hd.2.2.2.isI64 hd'.2.2.2.isI64 htarget
  have hop := DeltaOp.toInt_inj hop
  simp only at hid hsource htype htarget hop
  rw [hid, hsource, htype, htarget, hop]

theorem propertyRecordChecked_isRecord {delta : PropertyDelta}
    (h : propertyRecordChecked slot delta = .ok bytes) : IsRecord "PROPERTY" bytes := by
  obtain ⟨value, _, hsize, rfl⟩ := propertyRecordChecked_ok h
  exact ⟨_, hsize, rfl⟩

theorem canonical_of_valueBytes {d d' : PropertyDelta} (hd : d.Built) (hd' : d'.Built)
    {value : Option Bytes} (hop : d.op = d'.op) (h : valueBytes d = .ok value)
    (h' : valueBytes d' = .ok value) : d.canonical = d'.canonical := by
  obtain ⟨op, old⟩ := d
  obtain ⟨op', old'⟩ := d'
  cases hop
  rcases hd with ⟨rfl, v, rfl, hv⟩ | ⟨rfl, rfl⟩
  · rcases hd' with ⟨_, v', rfl, hv'⟩ | ⟨hop, _⟩
    · obtain ⟨bytes, hbytes, h⟩ := bind_eq_ok.mp h
      obtain ⟨bytes', hbytes', h'⟩ := bind_eq_ok.mp h'
      cases h
      cases h'
      have hback := fromCanonicalBytes_canonicalBytes v hv hbytes
      rw [fromCanonicalBytes_canonicalBytes v' hv' hbytes', Except.ok.injEq] at hback
      exact congrArg (fun v => (⟨.add, some v⟩ : PropertyDelta)) hback.symm
    · cases hop
  · rcases hd' with ⟨hop, _⟩ | ⟨_, rfl⟩
    · cases hop
    · rfl

theorem propertyRecordChecked_inj {slot' : PropertySlot} {d d' : PropertyDelta}
    (hslot : IsId slot.2.1 ∧ IsId slot.2.2) (hslot' : IsId slot'.2.1 ∧ IsId slot'.2.2)
    (hd : d.Built) (hd' : d'.Built) (h : propertyRecordChecked slot d = .ok bytes)
    (h' : propertyRecordChecked slot' d' = .ok bytes) :
    slot = slot' ∧ d.canonical = d'.canonical := by
  obtain ⟨value, hvalue, hsize, rfl⟩ := propertyRecordChecked_ok h
  obtain ⟨value', hvalue', hsize', heq⟩ := propertyRecordChecked_ok h'
  have hfields := (record_inj (by decide) (by decide) hsize hsize' heq).2
  simp only [propertyFields, List.cons.injEq, and_true] at hfields
  obtain ⟨hkind, howner, hkey, hop, _, hbytes⟩ := hfields
  have hvalues := optionalBytes_inj hbytes
  subst hvalues
  refine ⟨Prod.ext (OwnerKind.i64Bytes_inj hkind) (Prod.ext
    (i64Bytes_inj hslot.1.isI64 hslot'.1.isI64 howner)
    (i64Bytes_inj hslot.2.isI64 hslot'.2.isI64 hkey)), ?_⟩
  exact canonical_of_valueBytes hd hd' (DeltaOp.toInt_inj hop) hvalue hvalue'

/-! ## 3. The fields of a layer -/

theorem fields_ok (h : l.fields = .ok fields) :
    ∃ properties, l.properties.toList.mapM (fun e => propertyRecordChecked e.1 e.2) =
        .ok properties ∧
      fields = l.nodes.toList.map (fun e => nodeRecord e.1 e.2) ++
        (l.labels.toList.map (fun e => labelRecord e.1.1 e.1.2 e.2) ++
          (l.relationships.toList.map (fun e => relationshipRecord e.2) ++ properties)) := by
  obtain ⟨properties, hproperties, h⟩ := bind_eq_ok.mp h
  cases h
  exact ⟨properties, hproperties, by rw [List.append_assoc, List.append_assoc]⟩

theorem nodes_areRecords (l : LayerBuilder) :
    ∀ b ∈ l.nodes.toList.map (fun e => nodeRecord e.1 e.2), IsRecord "NODE" b := by
  intro b hb
  obtain ⟨e, _, rfl⟩ := List.mem_map.mp hb
  exact nodeRecord_isRecord e.1 e.2

theorem labels_areRecords (l : LayerBuilder) :
    ∀ b ∈ l.labels.toList.map (fun e => labelRecord e.1.1 e.1.2 e.2), IsRecord "LABEL" b := by
  intro b hb
  obtain ⟨e, _, rfl⟩ := List.mem_map.mp hb
  exact labelRecord_isRecord e.1.1 e.1.2 e.2

theorem relationships_areRecords (l : LayerBuilder) :
    ∀ b ∈ l.relationships.toList.map (fun e => relationshipRecord e.2), IsRecord "REL" b := by
  intro b hb
  obtain ⟨e, _, rfl⟩ := List.mem_map.mp hb
  exact relationshipRecord_isRecord e.2

theorem properties_areRecords {records : List Bytes}
    (h : l.properties.toList.mapM (fun e => propertyRecordChecked e.1 e.2) = .ok records) :
    ∀ b ∈ records, IsRecord "PROPERTY" b := by
  intro b hb
  obtain ⟨e, _, hrecord⟩ := exists_of_mem_mapM h b hb
  exact propertyRecordChecked_isRecord hrecord

theorem noRelationship_behind (l : LayerBuilder)
    (h : l.properties.toList.mapM (fun e => propertyRecordChecked e.1 e.2) = .ok properties) :
    ∀ b ∈ properties, ¬ IsRecord "REL" b := fun b hb =>
  isRecord_ne (properties_areRecords h b hb) (by decide) (by decide) (by decide)

theorem noLabel_behind (l : LayerBuilder)
    (h : l.properties.toList.mapM (fun e => propertyRecordChecked e.1 e.2) = .ok properties) :
    ∀ b ∈ l.relationships.toList.map (fun e => relationshipRecord e.2) ++ properties,
      ¬ IsRecord "LABEL" b := by
  intro b hb
  rcases List.mem_append.mp hb with hb | hb
  · exact isRecord_ne (relationships_areRecords l b hb) (by decide) (by decide) (by decide)
  · exact isRecord_ne (properties_areRecords h b hb) (by decide) (by decide) (by decide)

theorem noNode_behind (l : LayerBuilder)
    (h : l.properties.toList.mapM (fun e => propertyRecordChecked e.1 e.2) = .ok properties) :
    ∀ b ∈ l.labels.toList.map (fun e => labelRecord e.1.1 e.1.2 e.2) ++
        (l.relationships.toList.map (fun e => relationshipRecord e.2) ++ properties),
      ¬ IsRecord "NODE" b := by
  intro b hb
  rcases List.mem_append.mp hb with hb | hb
  · exact isRecord_ne (labels_areRecords l b hb) (by decide) (by decide) (by decide)
  · rcases List.mem_append.mp hb with hb | hb
    · exact isRecord_ne (relationships_areRecords l b hb) (by decide) (by decide) (by decide)
    · exact isRecord_ne (properties_areRecords h b hb) (by decide) (by decide) (by decide)

section Injective

variable {l l' : LayerBuilder} (hb : l.Built) (hb' : l'.Built)

include hb hb'

theorem nodes_inj (h : l.nodes.toList.map (fun e => nodeRecord e.1 e.2) =
    l'.nodes.toList.map fun e => nodeRecord e.1 e.2) : l.nodes = l'.nodes := by
  refine ExtTreeMap.toList_inj.mp (map_inj_of_mem (fun e he e' he' heq => ?_) h)
  have hentry := nodeRecord_inj (hb.nodes e.1 e.2 (lookup_of_mem he))
    (hb'.nodes e'.1 e'.2 (lookup_of_mem he')) heq
  exact Prod.ext hentry.1 hentry.2

theorem labels_inj (h : l.labels.toList.map (fun e => labelRecord e.1.1 e.1.2 e.2) =
    l'.labels.toList.map fun e => labelRecord e.1.1 e.1.2 e.2) : l.labels = l'.labels := by
  refine ExtTreeMap.toList_inj.mp (map_inj_of_mem (fun e he e' he' heq => ?_) h)
  have hentry := labelRecord_inj (hb.labels e.1 e.2 (lookup_of_mem he))
    (hb'.labels e'.1 e'.2 (lookup_of_mem he')) heq
  exact Prod.ext hentry.1 hentry.2

theorem relationships_inj (h : l.relationships.toList.map (fun e => relationshipRecord e.2) =
    l'.relationships.toList.map fun e => relationshipRecord e.2) :
    l.relationships = l'.relationships := by
  refine ExtTreeMap.toList_inj.mp (map_inj_of_mem (fun e he e' he' heq => ?_) h)
  obtain ⟨hkey, hids⟩ := hb.relationships e.1 e.2 (lookup_of_mem he)
  obtain ⟨hkey', hids'⟩ := hb'.relationships e'.1 e'.2 (lookup_of_mem he')
  have hdelta : e.2 = e'.2 := relationshipRecord_inj hids hids' heq
  exact Prod.ext (by rw [← hkey, ← hkey', hdelta]) hdelta

theorem properties_inj {records : List Bytes}
    (h : l.properties.toList.mapM (fun e => propertyRecordChecked e.1 e.2) = .ok records)
    (h' : l'.properties.toList.mapM (fun e => propertyRecordChecked e.1 e.2) = .ok records) :
    l.canonical.properties = l'.canonical.properties := by
  refine ExtTreeMap.toList_inj.mp ?_
  unfold LayerBuilder.canonical
  rw [ExtTreeMap.toList_map, ExtTreeMap.toList_map]
  refine mapM_inj _ h h' fun e he e' he' bytes hbytes hbytes' => ?_
  obtain ⟨howner, hkey, hbuilt⟩ := hb.properties e.1 e.2 (lookup_of_mem he)
  obtain ⟨howner', hkey', hbuilt'⟩ := hb'.properties e'.1 e'.2 (lookup_of_mem he')
  have hentry := propertyRecordChecked_inj ⟨howner, hkey⟩ ⟨howner', hkey'⟩ hbuilt hbuilt' hbytes
    hbytes'
  exact Prod.ext hentry.1 hentry.2

/-- **Layers with the same fields are the same layer**, up to the canonical form of their values. -/
theorem fields_inj (h : l.fields = .ok fields) (h' : l'.fields = .ok fields) :
    l.canonical = l'.canonical := by
  obtain ⟨properties, hproperties, hparts⟩ := fields_ok h
  obtain ⟨properties', hproperties', hparts'⟩ := fields_ok h'
  have hnodes := append_inj_of_kind (nodes_areRecords l) (nodes_areRecords l')
    (noNode_behind l hproperties) (noNode_behind l' hproperties') (hparts.symm.trans hparts')
  have hlabels := append_inj_of_kind (labels_areRecords l) (labels_areRecords l')
    (noLabel_behind l hproperties) (noLabel_behind l' hproperties') hnodes.2
  have hrelationships := append_inj_of_kind (relationships_areRecords l)
    (relationships_areRecords l') (noRelationship_behind l hproperties)
    (noRelationship_behind l' hproperties') hlabels.2
  have hp : (l.properties.map fun _ delta => delta.canonical) =
      l'.properties.map fun _ delta => delta.canonical :=
    properties_inj hb hb' hproperties (hrelationships.2 ▸ hproperties')
  unfold LayerBuilder.canonical
  rw [nodes_inj hb hb' hnodes.1, labels_inj hb hb' hlabels.1,
    relationships_inj hb hb' hrelationships.1, hp]

end Injective

/-! ## 4. The bytes of a layer -/

theorem length_record_i64 {domain : String} {values : List Int} (hvalues : values.length ≤ 5)
    (hdomain : (Text.utf8 domain.toList).length ≤ 8) :
    (record domain (values.map i64Bytes)).length < 2 ^ 64 := by
  have hfields : ∀ values : List Int, ((values.map i64Bytes).flatMap fieldBytes).length =
      values.length * 9 := by
    intro values
    induction values with
    | nil => rfl
    | cons value values ih =>
      rw [List.map_cons, List.flatMap_cons, List.length_append, ih, length_fieldBytes,
        length_i64Bytes, List.length_cons]
      have : ulebLen 8 = 1 := rfl
      omega
  have hmagic : (Text.utf8 "LCE1".toList).length = 4 := by decide
  have hname : ulebLen (Text.utf8 domain.toList).length = 1 := ulebLenFuel_small (by omega)
  have hcount : ulebLen (values.map i64Bytes).length = 1 := by
    rw [List.length_map]
    exact ulebLenFuel_small (by omega)
  rw [record_eq, encodeCounted_eq]
  unfold headerBytes
  simp only [List.length_append, length_ulebBytes, hmagic, hname, hcount, hfields]
  omega

theorem length_propertyRecord {delta : PropertyDelta}
    (h : propertyRecordChecked slot delta = .ok bytes) : bytes.length < 2 ^ 64 := by
  obtain ⟨_, _, h⟩ := bind_eq_ok.mp h
  obtain ⟨_, _, h⟩ := bind_eq_ok.mp h
  exact recordChecked_length (List.cons_ne_nil _ _) h

theorem sized_fields (hcounted : l.slotCount < 2 ^ 64) (h : l.fields = .ok fields) :
    Sized fields := by
  obtain ⟨properties, hproperties, rfl⟩ := fields_ok h
  constructor
  · unfold slotCount at hcounted
    simp only [List.length_append, List.length_map, ExtTreeMap.length_toList,
      length_mapM hproperties]
    omega
  · intro f hf
    rcases List.mem_append.mp hf with hf | hf
    · obtain ⟨e, _, rfl⟩ := List.mem_map.mp hf
      exact @length_record_i64 "NODE" [e.1, e.2.toInt] (by simp) (by decide)
    rcases List.mem_append.mp hf with hf | hf
    · obtain ⟨e, _, rfl⟩ := List.mem_map.mp hf
      exact @length_record_i64 "LABEL" [e.1.1, e.1.2, e.2.toInt] (by simp) (by decide)
    rcases List.mem_append.mp hf with hf | hf
    · obtain ⟨e, _, rfl⟩ := List.mem_map.mp hf
      exact @length_record_i64 "REL" [e.2.record.id, e.2.record.source, e.2.record.typeId,
        e.2.record.target, e.2.op.toInt] (by simp) (by decide)
    · obtain ⟨e, _, hrecord⟩ := exists_of_mem_mapM hproperties f hf
      exact length_propertyRecord hrecord

/-- **Two layers have the same bytes exactly when they are the same changes.** -/
theorem hashedBytes_iff {l' : LayerBuilder} (hb : l.Built) (hb' : l'.Built) {bytes' : Bytes}
    (h : l.hashedBytes = .ok bytes) (h' : l'.hashedBytes = .ok bytes') :
    bytes = bytes' ↔ l.canonical = l'.canonical := by
  obtain ⟨fields, hfields, h⟩ := bind_eq_ok.mp h
  obtain ⟨fields', hfields', h'⟩ := bind_eq_ok.mp h'
  cases h
  cases h'
  constructor
  · intro heq
    have hsame := (record_inj (by decide) (by decide) (sized_fields hb.counted hfields)
      (sized_fields hb'.counted hfields') heq).2
    exact fields_inj hb hb' hfields (hsame ▸ hfields')
  · intro heq
    have hsame := fields_canonical l
    rw [heq, fields_canonical, hfields, hfields', Except.ok.injEq] at hsame
    rw [hsame]

theorem hashedBytes_of_canonicalLce1 (h : l.canonicalLce1 = .ok bytes) :
    l.hashedBytes = .ok bytes := by
  obtain ⟨fields, hfields, h⟩ := bind_eq_ok.mp h
  obtain ⟨_, rfl⟩ := recordChecked_ok h
  exact bind_eq_ok.mpr ⟨fields, hfields, rfl⟩

theorem canonicalLce1_iff {l' : LayerBuilder} (hb : l.Built) (hb' : l'.Built) {bytes' : Bytes}
    (h : l.canonicalLce1 = .ok bytes) (h' : l'.canonicalLce1 = .ok bytes') :
    bytes = bytes' ↔ l.canonical = l'.canonical :=
  hashedBytes_iff hb hb' (hashedBytes_of_canonicalLce1 h) (hashedBytes_of_canonicalLce1 h')

theorem canonicalLce1_canonical (l : LayerBuilder) :
    l.canonical.canonicalLce1 = l.canonicalLce1 := by
  unfold canonicalLce1
  rw [fields_canonical]

end LayerBuilder

end Lithograph.Storage
