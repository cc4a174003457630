/-
  File:      Lithograph/Storage/SchemaDiff.lean
  Subject:   What the blob of a schema says, and how two schemas differ (`SchemaState::diff`,
             `storage/schema_state.rs`).

  The JSON library prints every definition; it goes down `nestingLimit` levels when it reads.

  * **`schemaBlob_told`**: a schema comes back from its blob exactly where no definition nests
    deeper, and the differences of two schemas are the definitions in which they differ.
-/
import Lithograph.Storage.LayerIdentity
import Lithograph.Storage.SchemaBlob

namespace Lithograph.Storage

open Std Library

/-! ## 1. Slots -/

/-- The characters in front of the name. -/
def ObjectKind.chars : ObjectKind → Text
  | .graphNode => ['g', 'r', 'a', 'p', 'h', '/', 'n', 'o', 'd', 'e', '/']
  | .graphRelationship =>
    ['g', 'r', 'a', 'p', 'h', '/', 'r', 'e', 'l', 'a', 't', 'i', 'o', 'n', 's', 'h', 'i', 'p', '/']
  | .constraint => ['c', 'o', 'n', 's', 't', 'r', 'a', 'i', 'n', 't', '/']
  | .index => ['i', 'n', 'd', 'e', 'x', '/']

theorem slotOf_eq (kind : ObjectKind) (name : Text) : slotOf (kind, name) = kind.chars ++ name := by
  cases kind <;> rfl

/-- **No two names share a slot.** -/
theorem slotOf_inj {key key' : ObjectKind × Text} (h : slotOf key = slotOf key') : key = key' := by
  obtain ⟨kind, name⟩ := key
  obtain ⟨kind', name'⟩ := key'
  rw [slotOf_eq, slotOf_eq] at h
  cases kind <;> cases kind' <;> simp [ObjectKind.chars] at h <;> rw [h]

inductive SchemaSlotChange where
  | added (slot : Text)
  | removed (slot : Text)
  | updated (slot : Text)

def SchemaSlotChange.slot : SchemaSlotChange → Text
  | .added slot => slot
  | .removed slot => slot
  | .updated slot => slot

/-- The arm of `diff` for one slot. -/
def slotChange (slot : Text) : Option Bytes → Option Bytes → Option SchemaSlotChange
  | none, some _ => some (.added slot)
  | some _, none => some (.removed slot)
  | some before, some after => if before ≠ after then some (.updated slot) else none
  | none, none => none

theorem slotChange_some {slot : Text} {change : SchemaSlotChange} {before after : Option Bytes}
    (h : slotChange slot before after = some change) :
    change.slot = slot ∧ (after.or before).isSome := by
  unfold slotChange at h
  split at h
  · cases h
    exact ⟨rfl, rfl⟩
  · cases h
    exact ⟨rfl, rfl⟩
  · split at h
    · cases h
      exact ⟨rfl, rfl⟩
    · cases h
  · cases h

namespace SchemaState

variable {t : JsonText} {schema other : SchemaState} {bytes left right : ExtTreeMap Text Bytes}
  {blob : Bytes}

/-- `diff`. The slots are those of either schema, in their order. -/
def diff (t : JsonText) (schema other : SchemaState) : StorageResult (List SchemaSlotChange) := do
  let left ← schema.logicalObjects t
  let right ← other.logicalObjects t
  pure ((insertEntries left right).keys.filterMap fun slot =>
    slotChange slot left[slot]? right[slot]?)

/-- Each definition stands under the name it has. -/
def Keyed (schema : SchemaState) : Prop :=
  ∀ key object, schema.lookup key = some object → object.key = key

/-- The record of the schema is no longer than a vector can be. -/
def Addressable (t : JsonText) (schema : SchemaState) : Prop :=
  ∀ bytes, schema.logicalObjects t = .ok bytes →
    (record "SCHEMA" (bytes.toList.map Prod.snd)).length < 2 ^ 64

/-- The bytes of the definitions, each in its slot. -/
structure BySlot (t : JsonText) (schema : SchemaState) (bytes : ExtTreeMap Text Bytes) : Prop where
  get : ∀ key, bytes[slotOf key]? = (schema.lookup key).map fun object => t.write object.json
  slots : ∀ (slot : Text) (b : Bytes), bytes[slot]? = some b → ∃ key, slotOf key = slot

theorem objects_slots (hs : schema.Keyed) : (schema.objects.map SchemaObject.slot).Nodup := by
  have hblock : ∀ {α : Type} {f : α → SchemaObject} {m : ExtTreeMap Text α} (kind : ObjectKind),
      (∀ name : Text, m[name]?.map f = schema.lookup (kind, name)) →
        (m.toList.map fun e => f e.2).map SchemaObject.slot =
          m.keys.map fun name => slotOf (kind, name) := by
    intro α f m kind hlookup
    rw [← ExtTreeMap.map_fst_toList_eq_keys, List.map_map, List.map_map]
    refine List.map_congr_left fun e he => ?_
    have hkey := hs (kind, e.1) (f e.2) (by
      rw [← hlookup e.1, lookup_of_mem he]
      rfl)
    rw [Function.comp_apply, SchemaObject.slot_eq, hkey]
    rfl
  have hnodup : ∀ {α : Type} (m : ExtTreeMap Text α) (kind : ObjectKind),
      (m.keys.map fun name => slotOf (kind, name)).Nodup := fun m kind =>
    List.Pairwise.map _ (fun _ _ hne h => hne (Prod.mk.inj (slotOf_inj h)).2) ExtTreeMap.nodup_keys
  have hapart : ∀ {kind kind' : ObjectKind} {name name' : Text}, kind ≠ kind' →
      slotOf (kind, name) ≠ slotOf (kind', name') := fun hne h =>
    hne (Prod.mk.inj (slotOf_inj h)).1
  unfold objects
  rw [List.map_append, List.map_append, List.map_append, hblock .graphNode fun _ => rfl,
    hblock .graphRelationship fun _ => rfl, hblock .constraint fun _ => rfl,
    hblock .index fun _ => rfl]
  simp only [List.nodup_append, hnodup, List.mem_append, List.mem_map, true_and]
  refine ⟨⟨?_, ?_⟩, ?_⟩
  · rintro _ ⟨name, _, rfl⟩ _ ⟨name', _, rfl⟩
    exact hapart (by decide)
  · rintro _ ⟨name, _, rfl⟩ _ (⟨name', _, rfl⟩ | ⟨name', _, rfl⟩) <;> exact hapart (by decide)
  · rintro _ ⟨name, _, rfl⟩ _ (⟨name', _, rfl⟩ | ⟨name', _, rfl⟩ | ⟨name', _, rfl⟩) <;>
      exact hapart (by decide)

theorem insertEncoded_total : ∀ {pending : List SchemaObject} {bytes : ExtTreeMap Text Bytes},
    (pending.map SchemaObject.slot).Nodup → (∀ object ∈ pending, bytes[object.slot]? = none) →
      ∃ all, pending.foldlM (insertEncoded t) bytes = .ok all
  | [], bytes, _, _ => ⟨bytes, rfl⟩
  | object :: pending, bytes, hnodup, hfresh => by
    obtain ⟨hhead, htail⟩ := List.nodup_cons.mp hnodup
    have hnone : bytes.contains object.slot = false := by
      rw [ExtTreeMap.contains_eq_isSome_getElem?, hfresh object List.mem_cons_self]
      rfl
    have hinsert : insertEncoded t bytes object =
        .ok (bytes.insert object.slot (t.write object.json)) := by
      unfold insertEncoded
      rw [hnone]
      rfl
    rw [List.foldlM_cons, hinsert, ok_bind]
    refine insertEncoded_total htail fun other hother => ?_
    have hne : other.slot ≠ object.slot := fun h => hhead (h ▸ List.mem_map_of_mem hother)
    rw [lookup_insert, if_neg hne]
    exact hfresh other (.tail _ hother)

/-- **A keyed schema has its definitions by slot.** -/
theorem logicalObjects_total (t : JsonText) (hs : schema.Keyed) :
    ∃ bytes, schema.logicalObjects t = .ok bytes ∧ schema.BySlot t bytes := by
  obtain ⟨bytes, hbytes⟩ := insertEncoded_total (t := t) (objects_slots hs)
    fun object _ => ExtTreeMap.getElem?_empty
  obtain ⟨all, rfl, hslots, hmembers⟩ := logicalObjects_bySlot hbytes
  refine ⟨_, hbytes, ⟨fun key => ?_, fun slot b hb => ?_⟩⟩
  · have hall : all[slotOf key]? = schema.lookup key := by
      refine Option.ext fun object => ⟨fun h => ?_, fun h => ?_⟩
      · have hkey : object.key = key := slotOf_inj (by rw [← object.slot_eq, hslots _ _ h])
        obtain ⟨key', hkey'⟩ := mem_objects.mp ((hmembers object).mp ⟨_, h⟩)
        rwa [← hkey, hs key' object hkey']
      · obtain ⟨slot, hslot⟩ := (hmembers object).mpr (mem_objects.mpr ⟨key, h⟩)
        rwa [← hs key object h, ← object.slot_eq, hslots _ _ hslot]
    rw [ExtTreeMap.getElem?_map, hall]
  · rw [ExtTreeMap.getElem?_map] at hb
    obtain ⟨object, hobject, _⟩ := Option.map_eq_some_iff.mp hb
    exact ⟨object.key, by rw [← object.slot_eq, hslots slot object hobject]⟩

/-! ## 2. What the JSON library does -/

end SchemaState

mutual

/-- The levels of arrays and objects in a value. -/
def Json.depth : Json → Nat
  | .array items => depthOfItems items + 1
  | .object fields => depthOfFields fields + 1
  | _ => 0

def depthOfItems : List Json → Nat
  | [] => 0
  | item :: items => max item.depth (depthOfItems items)

def depthOfFields : List (Text × Json) → Nat
  | [] => 0
  | (_, value) :: fields => max value.depth (depthOfFields fields)

end

/-- How far down the JSON reader goes, unless it is told otherwise. -/
def nestingLimit : Nat := 127

/-- The JSON library on some definitions: what it prints is exact, and it reads back what it
    printed where that nests no deeper than it goes. -/
structure JsonText.Exact (t : JsonText) (objects : List SchemaObject) : Prop where
  printed : ∀ a ∈ objects, ∀ b ∈ objects, t.write a.json = t.write b.json → a.json = b.json
  read : ∀ a ∈ objects,
    t.read (t.write a.json) = if a.json.depth ≤ nestingLimit then some a.json else none

theorem SchemaObject.json_inj {a b : SchemaObject} (h : a.json = b.json) : a = b := by
  have ha := ofJson_json a
  rw [h, ofJson_json b] at ha
  exact (Option.some.inj ha).symm

namespace SchemaState

variable {t : JsonText} {schema other : SchemaState} {bytes left right : ExtTreeMap Text Bytes}
  {blob : Bytes}

theorem canonicalBlob_total (hs : schema.Keyed) (ha : schema.Addressable t) :
    ∃ blob, schema.canonicalBlob t = .ok blob := by
  obtain ⟨bytes, hbytes, _⟩ := logicalObjects_total t hs
  exact ⟨_, bind_eq_ok.mpr ⟨bytes, hbytes, recordChecked_total (ha bytes hbytes)⟩⟩

theorem decodeObjects_through : ∀ {fields : List Bytes} {schema : SchemaState}
    {previous : Option Text} {offset : Nat} {result : SchemaState × Cursor UInt8},
    (∀ field ∈ fields, field.length < 2 ^ 64) →
    (decodeObjects t fields.length schema previous).run ⟨offset, fields.flatMap fieldBytes⟩ =
      .ok result → ∀ field ∈ fields, t.read field ≠ none
  | [], _, _, _, _, _, _ => fun _ hfield => absurd hfield List.not_mem_nil
  | field :: fields, schema, previous, offset, result, hsize, h => by
    rw [List.flatMap_cons, List.length_cons, decodeObjects, StateT.run_bind,
      nextField_reads (hsize field (.head _)), ok_bind] at h
    cases hread : t.read field with
    | none =>
      have hobject : decodeObject t field = .error (.corrupt "invalid Schema object JSON") := by
        unfold decodeObject
        rw [hread]
        rfl
      rw [hobject] at h
      cases h
    | some json =>
      cases hobject : decodeObject t field with
      | error e =>
        rw [hobject] at h
        cases h
      | ok object =>
        rw [hobject] at h
        change StateT.run (if _ then _ else _) _ = _ at h
        split at h
        · cases h
        · cases hinsert : schema.insertObject object with
          | error e =>
            rw [hinsert] at h
            cases h
          | ok next =>
            rw [hinsert] at h
            intro other hother
            rcases List.mem_cons.mp hother with rfl | hother
            · rw [hread]
              exact Option.some_ne_none json
            · exact decodeObjects_through (fun f hf => hsize f (.tail _ hf)) h
                other hother

/-- **A schema comes back from its blob exactly where none of its definitions nests too deep.** -/
theorem fromCanonicalBlob_iff (hs : schema.Keyed) (ht : t.Exact schema.objects)
    (h : schema.canonicalBlob t = .ok blob) : fromCanonicalBlob t blob = .ok schema ↔
      ∀ object ∈ schema.objects, object.json.depth ≤ nestingLimit := by
  refine ⟨fun hback object hobject => ?_, fun hdepth => ?_⟩
  · obtain ⟨bytes, hbytes, hrecord⟩ := bind_eq_ok.mp h
    obtain ⟨listed, hlisted⟩ := logicalObjects_listed hbytes
    obtain ⟨hsize, rfl⟩ := recordChecked_ok hrecord
    obtain ⟨read, hread, _⟩ := bind_eq_ok.mp hback
    obtain ⟨result, hrun, _⟩ := bind_eq_ok.mp hread
    rw [StateT.run_bind, record_eq, recordHeader_reads (by decide), ok_bind, StateT.run_bind] at hrun
    have hcount := fieldCount_counted hsize.count (0 + (headerBytes "SCHEMA").length) []
    rw [List.append_nil] at hcount
    rw [hcount, ok_bind, List.append_nil] at hrun
    have hthrough := decodeObjects_through hsize.each hrun (t.write object.json) (by
      rw [hlisted.encoded]
      exact List.mem_map_of_mem ((hlisted.members object).mpr hobject))
    rw [ht.read object hobject] at hthrough
    by_contra hdeep
    exact hthrough (if_neg hdeep)
  · refine fromCanonicalBlob_canonicalBlob ⟨hs, fun object hobject => ?_⟩ h
    rw [ht.read object hobject, if_pos (hdepth object hobject)]

theorem eq_of_objects (hs : schema.Keyed) (ho : other.Keyed)
    (h : ∀ object, object ∈ schema.objects ↔ object ∈ other.objects) : schema = other := by
  have hlookup : ∀ {a b : SchemaState}, a.Keyed → b.Keyed →
      (∀ object, object ∈ a.objects → object ∈ b.objects) →
        ∀ key object, a.lookup key = some object → b.lookup key = some object := by
    intro a b ha hb hsub key object hkey
    obtain ⟨key', hkey'⟩ := mem_objects.mp (hsub object (mem_objects.mpr ⟨key, hkey⟩))
    rwa [← ha key object hkey, hb key' object hkey']
  exact ext_lookup fun key => Option.ext fun object =>
    ⟨hlookup hs ho (fun o => (h o).mp) key object, hlookup ho hs (fun o => (h o).mpr) key object⟩

/-- **Two schemas have the same blob exactly when they are the same.** -/
theorem canonicalBlob_eq_iff {blob' : Bytes} (hs : schema.Keyed) (ho : other.Keyed)
    (ht : t.Exact (schema.objects ++ other.objects)) (h : schema.canonicalBlob t = .ok blob)
    (h' : other.canonicalBlob t = .ok blob') : blob = blob' ↔ schema = other := by
  refine ⟨fun hblob => ?_, fun heq => ?_⟩
  · obtain ⟨bytes, hbytes, hrecord⟩ := bind_eq_ok.mp h
    obtain ⟨bytes', hbytes', hrecord'⟩ := bind_eq_ok.mp h'
    obtain ⟨listed, hlisted⟩ := logicalObjects_listed hbytes
    obtain ⟨listed', hlisted'⟩ := logicalObjects_listed hbytes'
    obtain ⟨hsize, rfl⟩ := recordChecked_ok hrecord
    obtain ⟨hsize', rfl⟩ := recordChecked_ok hrecord'
    have hfields := (record_inj (by decide) (by decide) hsize hsize' hblob).2
    rw [hlisted.encoded, hlisted'.encoded] at hfields
    have hmem : ∀ {a b : List SchemaObject}, (∀ x ∈ a, x ∈ schema.objects ++ other.objects) →
        (∀ x ∈ b, x ∈ schema.objects ++ other.objects) →
        a.map (fun object => t.write object.json) = b.map (fun object => t.write object.json) →
          ∀ x ∈ a, x ∈ b := by
      intro a b ha hb hab x hx
      obtain ⟨y, hy, hxy⟩ := List.mem_map.mp (hab ▸ List.mem_map_of_mem hx)
      rwa [← SchemaObject.json_inj (ht.printed y (hb y hy) x (ha x hx) hxy)]
    have hin : ∀ x ∈ listed, x ∈ schema.objects ++ other.objects := fun x hx =>
      List.mem_append_left _ ((hlisted.members x).mp hx)
    have hin' : ∀ x ∈ listed', x ∈ schema.objects ++ other.objects := fun x hx =>
      List.mem_append_right _ ((hlisted'.members x).mp hx)
    refine eq_of_objects hs ho fun object => ?_
    rw [← hlisted.members, ← hlisted'.members]
    exact ⟨hmem hin hin' hfields object, hmem hin' hin hfields.symm object⟩
  · rw [heq, h'] at h
    exact (Except.ok.inj h).symm

/-! ## 3. Differences -/

/-- What differs from one schema to another. -/
inductive Differs (schema other : SchemaState) : SchemaSlotChange → Prop
  | added {key after} : schema.lookup key = none → other.lookup key = some after →
      Differs schema other (.added (slotOf key))
  | removed {key before} : schema.lookup key = some before → other.lookup key = none →
      Differs schema other (.removed (slotOf key))
  | updated {key before after} : schema.lookup key = some before → other.lookup key = some after →
      before ≠ after → Differs schema other (.updated (slotOf key))

theorem slotChange_iff (hl : schema.BySlot t left) (hr : other.BySlot t right)
    (ht : t.Exact (schema.objects ++ other.objects)) {change : SchemaSlotChange} :
    (∃ slot : Text, slotChange slot left[slot]? right[slot]? = some change) ↔
      Differs schema other change := by
  have hwritten : ∀ {key before after}, schema.lookup key = some before →
      other.lookup key = some after → (t.write before.json = t.write after.json ↔ before = after) := by
    intro key before after hbefore hafter
    refine ⟨fun h => SchemaObject.json_inj (ht.printed _ ?_ _ ?_ h), fun h => by rw [h]⟩
    · exact List.mem_append_left _ (mem_objects.mpr ⟨key, hbefore⟩)
    · exact List.mem_append_right _ (mem_objects.mpr ⟨key, hafter⟩)
  refine ⟨fun h => ?_, fun h => ?_⟩
  · obtain ⟨slot, hchange⟩ := h
    obtain ⟨key, rfl⟩ : ∃ key, slotOf key = slot := by
      obtain ⟨b, hb⟩ := Option.isSome_iff_exists.mp (slotChange_some hchange).2
      rcases Option.or_eq_some_iff.mp hb with hb | ⟨_, hb⟩
      · exact hr.slots slot b hb
      · exact hl.slots slot b hb
    rw [hl.get, hr.get] at hchange
    cases hbefore : schema.lookup key <;> cases hafter : other.lookup key <;>
      rw [hbefore, hafter] at hchange
    case none.none => cases hchange
    case none.some after =>
      cases hchange
      exact .added hbefore hafter
    case some.none before =>
      cases hchange
      exact .removed hbefore hafter
    case some.some before after =>
      obtain ⟨hne, hchange⟩ := Option.ite_none_right_eq_some.mp hchange
      cases hchange
      exact .updated hbefore hafter fun h => hne ((hwritten hbefore hafter).mpr h)
  · cases h with
    | @added key _ hbefore hafter =>
      exact ⟨slotOf key, by rw [hl.get, hr.get, hbefore, hafter]; rfl⟩
    | @removed key _ hbefore hafter =>
      exact ⟨slotOf key, by rw [hl.get, hr.get, hbefore, hafter]; rfl⟩
    | @updated key _ _ hbefore hafter hne =>
      refine ⟨slotOf key, ?_⟩
      rw [hl.get, hr.get, hbefore, hafter]
      exact if_pos fun h => hne ((hwritten hbefore hafter).mp h)

/-- **The differences of two schemas**: those reported are those there are, and none is reported
    twice. -/
theorem diff_told (hs : schema.Keyed) (ho : other.Keyed)
    (ht : t.Exact (schema.objects ++ other.objects)) :
    ∃ changes, diff t schema other = .ok changes ∧ (changes.map SchemaSlotChange.slot).Nodup ∧
      (∀ change, change ∈ changes ↔ Differs schema other change) ∧
      (changes = [] ↔ schema = other) := by
  obtain ⟨left, hleft, hl⟩ := logicalObjects_total t hs
  obtain ⟨right, hright, hr⟩ := logicalObjects_total t ho
  have hmem : ∀ change, change ∈ ((insertEntries left right).keys.filterMap fun slot =>
      slotChange slot left[slot]? right[slot]?) ↔ Differs schema other change := by
    intro change
    rw [← slotChange_iff hl hr ht, List.mem_filterMap]
    refine ⟨fun ⟨slot, _, h⟩ => ⟨slot, h⟩, fun ⟨slot, h⟩ => ⟨slot, ?_, h⟩⟩
    rw [ExtTreeMap.mem_keys, ExtTreeMap.mem_iff_isSome_getElem?, getElem?_insertEntries]
    exact (slotChange_some h).2
  refine ⟨_, bind_eq_ok.mpr ⟨left, hleft, bind_eq_ok.mpr ⟨right, hright, rfl⟩⟩, ?_, hmem, ?_⟩
  · refine List.pairwise_map.mpr (List.pairwise_filterMap.mpr ?_)
    refine ExtTreeMap.nodup_keys.imp fun hne a ha b hb => ?_
    rwa [(slotChange_some ha).1, (slotChange_some hb).1]
  · simp only [List.eq_nil_iff_forall_not_mem, hmem]
    refine ⟨fun h => ext_lookup fun key => ?_, fun h change hchange => ?_⟩
    · cases hbefore : schema.lookup key <;> cases hafter : other.lookup key
      case none.none => rfl
      case none.some after => exact absurd (.added hbefore hafter) (h _)
      case some.none before => exact absurd (.removed hbefore hafter) (h _)
      case some.some before after =>
        by_contra hne
        exact h _ (.updated hbefore hafter fun heq => hne (congrArg some heq))
    · subst h
      cases hchange with
      | added hbefore hafter => cases hbefore.symm.trans hafter
      | removed hbefore hafter => cases hbefore.symm.trans hafter
      | updated hbefore hafter hne => exact hne (Option.some.inj (hbefore.symm.trans hafter))

/-! ## 4. Both at once -/

/-- **What a blob says**: it comes back exactly where no definition nests deeper than the reader
    goes, it is the only one read as what it says, and schemas differ as their blobs do. -/
theorem schemaBlob_told (hs : schema.Keyed) (ho : other.Keyed)
    (ht : t.Exact (schema.objects ++ other.objects)) (ha : schema.Addressable t)
    (ha' : other.Addressable t) : ∃ blob blob' changes, schema.canonicalBlob t = .ok blob ∧
      other.canonicalBlob t = .ok blob' ∧ diff t schema other = .ok changes ∧
      (fromCanonicalBlob t blob = .ok schema ↔
        ∀ object ∈ schema.objects, object.json.depth ≤ nestingLimit) ∧
      (∀ bytes read, fromCanonicalBlob t bytes = .ok read → read.canonicalBlob t = .ok bytes) ∧
      (blob = blob' ↔ schema = other) ∧ (changes.map SchemaSlotChange.slot).Nodup ∧
      (∀ change, change ∈ changes ↔ Differs schema other change) ∧ (changes = [] ↔ blob = blob') := by
  obtain ⟨blob, hblob⟩ := canonicalBlob_total hs ha
  obtain ⟨blob', hblob'⟩ := canonicalBlob_total ho ha'
  obtain ⟨changes, hchanges, hnodup, hmem, hnil⟩ := diff_told hs ho ht
  have hsame := canonicalBlob_eq_iff hs ho ht hblob hblob'
  have hleft : t.Exact schema.objects :=
    ⟨fun a ha b hb => ht.printed a (List.mem_append_left _ ha) b (List.mem_append_left _ hb),
      fun a ha => ht.read a (List.mem_append_left _ ha)⟩
  exact ⟨blob, blob', changes, hblob, hblob', hchanges, fromCanonicalBlob_iff hs hleft hblob,
    fun _ _ => fromCanonicalBlob_canonical, hsame, hnodup, hmem, hnil.trans hsame.symm⟩

end SchemaState

/-! ## 5. Lists in lists -/

/-- A type of `n` lists, one in the other. -/
def nestedType : Nat → PropertyType
  | 0 => .any
  | n + 1 => .list (nestedType n)

def nestedTypeText : Nat → Text
  | 0 => "\x7b\"type\":\"any\"\x7d".toList
  | n + 1 => "\x7b\"element\":".toList ++ nestedTypeText n ++ ",\"type\":\"list\"\x7d".toList

/-- A constraint that properties have such a type. -/
def nestedObject (n : Nat) : SchemaObject :=
  .constraint ⟨"c".toList, .node "L".toList, ["p".toList], .type ⟨nestedType n, false⟩, none⟩

def nestedText (n : Nat) : Text :=
  "\x7b\"definition\":\x7b\"kind\":\x7b\"kind\":\"type\",\"rule\":\x7b\"property_type\":".toList ++
    nestedTypeText n ++ (",\"required\":false\x7d\x7d,\"name\":\"c\",\"origin\":null," ++
      "\"properties\":[\"p\"],\"target\":\x7b\"label\":\"L\",\"target\":\"node\"\x7d\x7d," ++
      "\"object\":\"constraint\"\x7d").toList

/-- The JSON library on that constraint. -/
def nestedLibrary (n : Nat) : JsonText where
  write _ := Text.utf8 (nestedText n)
  read bytes :=
    if bytes = Text.utf8 (nestedText n) ∧ (nestedObject n).json.depth ≤ nestingLimit then
      some (nestedObject n).json
    else none

def nestedSchema (n : Nat) : SchemaState := ({} : SchemaState).put (nestedObject n)

variable (n : Nat)

theorem nested_objects : (nestedSchema n).objects = [nestedObject n] := rfl

theorem nested_keyed : (nestedSchema n).Keyed := by
  intro key object h
  unfold nestedSchema at h
  rw [SchemaState.lookup_put] at h
  split at h
  · rename_i hkey
    cases h
    exact hkey.symm
  · obtain ⟨kind, name⟩ := key
    cases kind <;> simp [SchemaState.lookup] at h

theorem nested_exact : (nestedLibrary n).Exact (nestedSchema n).objects := by
  rw [nested_objects]
  refine ⟨fun a ha b hb _ => ?_, fun a ha => ?_⟩
  · rw [List.mem_singleton.mp ha, List.mem_singleton.mp hb]
  · rw [List.mem_singleton.mp ha]
    simp [nestedLibrary]

theorem nestedType_depth : ∀ n, (nestedType n).json.depth = n + 1
  | 0 => by simp [nestedType, PropertyType.json, Json.depth, depthOfFields, textJson]
  | n + 1 => by
    simp [nestedType, PropertyType.json, Json.depth, depthOfFields, textJson, nestedType_depth n]

theorem nested_depth : (nestedObject n).json.depth = n + 5 := by
  simp [nestedObject, SchemaObject.json, SchemaObject.definitionJson, Serial.toJson,
    ConstraintDefinition.json, ConstraintDefinitionKind.json, PropertyRule.json, SchemaTarget.json,
    optionJson, textsJson, textJson, Json.depth, depthOfFields, depthOfItems, nestedType_depth]

theorem nested_addressable {n : Nat}
    (h : (record "SCHEMA" [Text.utf8 (nestedText n)]).length < 2 ^ 64) :
    (nestedSchema n).Addressable (nestedLibrary n) := by
  intro bytes hbytes
  have hinsert : bytes = (∅ : ExtTreeMap Text Bytes).insert (nestedObject n).slot
      (Text.utf8 (nestedText n)) := (Except.ok.inj hbytes).symm
  rw [hinsert]
  exact h

/-- A list of anything is read back; without the constraint the schema is another one. -/
theorem schemaBlob_told_list : ∃ blob blob' changes,
    (nestedSchema 1).canonicalBlob (nestedLibrary 1) = .ok blob ∧
      ({} : SchemaState).canonicalBlob (nestedLibrary 1) = .ok blob' ∧
      SchemaState.diff (nestedLibrary 1) (nestedSchema 1) {} = .ok changes ∧
      SchemaState.fromCanonicalBlob (nestedLibrary 1) blob = .ok (nestedSchema 1) := by
  have hempty : ({} : SchemaState).Keyed := by
    intro key object h
    obtain ⟨kind, name⟩ := key
    cases kind <;> simp [SchemaState.lookup] at h
  have hnone : ({} : SchemaState).Addressable (nestedLibrary 1) := by
    intro bytes hbytes
    cases hbytes
    decide
  have hexact : (nestedLibrary 1).Exact ((nestedSchema 1).objects ++ ({} : SchemaState).objects) :=
    nested_exact 1
  obtain ⟨blob, blob', changes, hblob, hblob', hdiff, hback, _⟩ := SchemaState.schemaBlob_told
    (nested_keyed 1) hempty hexact (nested_addressable (by decide +kernel)) hnone
  refine ⟨blob, blob', changes, hblob, hblob', hdiff, hback.mpr fun object hobject => ?_⟩
  rw [nested_objects] at hobject
  rw [List.mem_singleton.mp hobject, nested_depth]
  decide

/-- **A schema that is written and not read back**: a constraint on 123 lists, one in the other. -/
theorem nested_unreadable : (nestedSchema 123).Keyed ∧
    (nestedLibrary 123).Exact (nestedSchema 123).objects ∧
    ∃ blob, (nestedSchema 123).canonicalBlob (nestedLibrary 123) = .ok blob ∧
      SchemaState.fromCanonicalBlob (nestedLibrary 123) blob ≠ .ok (nestedSchema 123) := by
  obtain ⟨blob, hblob⟩ := SchemaState.canonicalBlob_total (nested_keyed 123)
    (nested_addressable (by decide +kernel))
  refine ⟨nested_keyed 123, nested_exact 123, blob, hblob, fun hback => ?_⟩
  have hdepth := (SchemaState.fromCanonicalBlob_iff (nested_keyed 123) (nested_exact 123) hblob).mp
    hback (nestedObject 123) (List.mem_singleton_self _)
  rw [nested_depth] at hdepth
  exact absurd hdepth (by decide)

end Lithograph.Storage
