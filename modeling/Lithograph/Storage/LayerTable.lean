/-
  File:      Lithograph/Storage/LayerTable.lean
  Subject:   The table of layers and their content hashes (`storage/layer.rs`).

  A layer whose hash is in the table is checked against the rows that are there; any other gets the
  next identifier and its rows. Garbage collection drops the layers no commit uses.

  * `layerContentAddressing`: equal bytes, equal identifiers and equal changes are the same.
-/
import Lithograph.Storage.LayerIdentity
import Lithograph.Storage.LayerSupply
import Lithograph.Storage.Snapshot

namespace Lithograph.Storage

open Std Library

variable {l' layer : LayerBuilder} {rows : LayerRows}

/-! ## 1. The rows hash to what the layer hashes to -/

namespace LayerRows

variable {real : RealColumn} {l : LayerBuilder} {rows : LayerRows}

theorem collect_pure {α : Type} (f : α → Bytes) (list : List α) (acc : List Bytes) :
    list.foldlM (fun acc a => (pure (acc ++ [f a]) : StorageResult (List Bytes))) acc =
      .ok (acc ++ list.map f) :=
  list_foldlM_collect (f := fun a => (pure (f a) : StorageResult Bytes)) List.mapM_pure acc

/-- **The rows of a layer have its hash.** -/
theorem storedBytes_persisted (hbuilt : l.Built) (h : ofLayer real l = .ok rows) {bytes : Bytes}
    (hbytes : l.hashedBytes = .ok bytes) : rows.storedBytes = .ok bytes := by
  obtain ⟨fields, hfields, hbytes⟩ := bind_eq_ok.mp hbytes
  cases hbytes
  obtain ⟨properties, hproperties, rfl⟩ := LayerBuilder.fields_ok hfields
  have hunchecked : l.canonical.properties.toList.mapM
      (fun e => LayerBuilder.propertyRecord e.1 e.2) = .ok properties := by
    rw [← LayerBuilder.properties_canonical] at hproperties
    exact mapM_congr_ok hproperties fun e bytes he => LayerBuilder.propertyRecord_of_checked he
  unfold storedBytes storedFields
  rw [visitNodes_persisted hbuilt h, collect_pure, ok_bind, visitLabels_persisted hbuilt h,
    collect_pure, ok_bind, visitRelationships_persisted hbuilt h, collect_pure, ok_bind,
    visitProperties_persisted hbuilt h, list_foldlM_collect hunchecked]
  simp only [List.nil_append, List.append_assoc]
  rfl

/-! ## 2. The rows pass the check -/

theorem propertyStatesEqual_canonical {delta : PropertyDelta} {value : Option Bytes}
    (h : LayerBuilder.valueBytes delta = .ok value) :
    propertyStatesEqual delta.canonical.value delta.value = .ok true := by
  obtain ⟨op, old⟩ := delta
  cases old with
  | none => rfl
  | some old =>
    obtain ⟨bytes, hbytes, _⟩ := bind_eq_ok.mp h
    exact canonicalValuesEqual_true.mpr ⟨bytes, by rw [canonicalBytes_canonical, hbytes], hbytes⟩

theorem verifyProperty_canonical (id : Int) (n : Nat) {fields : List Bytes}
    (hfields : l'.fields = .ok fields) {e : PropertySlot × PropertyDelta}
    (he : e ∈ l'.canonical.properties.toList) : verifyProperty id l' n e.1 e.2 = .ok (n + 1) := by
  have hentry : l'.canonical.properties[e.1]? = some e.2 := lookup_of_mem he
  unfold LayerBuilder.canonical at hentry
  rw [ExtTreeMap.getElem?_map] at hentry
  cases hold : l'.properties[e.1]? with
  | none =>
    rw [hold] at hentry
    cases hentry
  | some expected =>
    rw [hold] at hentry
    have hdelta : expected.canonical = e.2 := Option.some.inj hentry
    obtain ⟨properties, hproperties, _⟩ := LayerBuilder.fields_ok hfields
    obtain ⟨record, hrecord⟩ := mapM_ok_of_mem hproperties (e.1, expected)
      (mem_of_lookup hold)
    obtain ⟨value, hvalue, _⟩ := LayerBuilder.propertyRecordChecked_ok hrecord
    have hequal := propertyStatesEqual_canonical hvalue
    have hop : expected.canonical.op = expected.op := rfl
    unfold verifyProperty
    rw [hold, ← hdelta]
    simp only [hop, ne_eq, not_true_eq_false, if_false, hequal, ok_bind]
    rfl

/-- **The rows of a layer pass the check.** -/
theorem verifyExistingLayer_persisted (hbuilt : l.Built) (h : ofLayer real l = .ok rows)
    (id : Int) (hsame : l.canonical = l'.canonical) {fields : List Bytes}
    (hfields : l'.fields = .ok fields) : rows.verifyExistingLayer id l' = .ok () := by
  have hproperties : l.canonical.properties = l'.canonical.properties := by rw [hsame]
  have hnodes : l.canonical.nodes = l'.canonical.nodes := by rw [hsame]
  have hlabels : l.canonical.labels = l'.canonical.labels := by rw [hsame]
  have hrelationships : l.canonical.relationships = l'.canonical.relationships := by rw [hsame]
  replace hnodes : l.nodes = l'.nodes := hnodes
  replace hlabels : l.labels = l'.labels := hlabels
  replace hrelationships : l.relationships = l'.relationships := hrelationships
  have hcount : ∀ n : Nat, requireSlotCount id n n = .ok () := by
    unfold requireSlotCount mismatchWhen
    simp
  have h₁ : rows.verifyStoredNodes id l' = .ok () := by
    unfold verifyStoredNodes
    rw [visitNodes_persisted hbuilt h, list_foldlM_checked 0 (fun n e he => ?_), ok_bind,
      Nat.zero_add, ExtTreeMap.length_toList, hnodes]
    · exact hcount _
    · unfold mismatchWhen
      rw [← hnodes, lookup_of_mem he]
      simp [bind, Except.bind, pure, Except.pure]
  have h₂ : rows.verifyStoredLabels id l' = .ok () := by
    unfold verifyStoredLabels
    rw [visitLabels_persisted hbuilt h, list_foldlM_checked 0 (fun n e he => ?_), ok_bind,
      Nat.zero_add, ExtTreeMap.length_toList, hlabels]
    · exact hcount _
    · unfold mismatchWhen
      rw [← hlabels, lookup_of_mem he]
      simp [bind, Except.bind, pure, Except.pure]
  have h₃ : rows.verifyStoredRelationships id l' = .ok () := by
    unfold verifyStoredRelationships
    rw [visitRelationships_persisted hbuilt h, list_foldlM_checked 0 (fun n e he => ?_), ok_bind,
      Nat.zero_add, ExtTreeMap.length_toList, hrelationships]
    · exact hcount _
    · unfold mismatchWhen
      have hentry := lookup_of_mem he
      rw [(hbuilt.relationships e.1 e.2 hentry).1, ← hrelationships, hentry]
      simp [bind, Except.bind, pure, Except.pure]
  have h₄ : rows.verifyStoredProperties id l' = .ok () := by
    unfold verifyStoredProperties
    rw [visitProperties_persisted hbuilt h, hproperties, list_foldlM_checked 0 (fun n e he => ?_),
      ok_bind, Nat.zero_add, ExtTreeMap.length_toList]
    · unfold LayerBuilder.canonical
      rw [ExtTreeMap.size_map]
      exact hcount _
    · exact verifyProperty_canonical id n hfields he
  unfold verifyExistingLayer
  rw [h₁, ok_bind, h₂, ok_bind, h₃, ok_bind, h₄]

variable {id : Int}

theorem mismatchWhen_ok {condition : Bool} {u : Unit} :
    mismatchWhen id condition = .ok u ↔ condition = false := by
  unfold mismatchWhen
  cases condition <;> simp

theorem eq_of_counted {K V : Type} [Ord K] [TransOrd K] [LawfulEqOrd K] {m m' : ExtTreeMap K V}
    (check : K × V → StorageResult Unit) (hcheck : ∀ e : K × V, m[e.1]? = some e.2 →
      check e = .ok () → m'[e.1]? = some e.2)
    (h : (m.toList.foldlM (fun count e => do
        check e
        pure (count + 1)) 0 >>= fun count => requireSlotCount id count m'.size) = .ok ()) :
    m = m' := by
  obtain ⟨count, hcount, hsize⟩ := bind_eq_ok.mp h
  have hlength := list_foldlM_length (fun n e n' hstep => by
    obtain ⟨_, hstep⟩ := check_bind_eq_ok.mp hstep
    exact (Except.ok.inj hstep).symm) hcount
  have hsize : count = m'.size := by
    unfold requireSlotCount at hsize
    simpa using mismatchWhen_ok.mp hsize
  refine eq_of_sub_of_size (fun k v hv => ?_) ?_
  · obtain ⟨n, n', hstep⟩ := list_foldlM_each hcount (k, v) (mem_of_lookup hv)
    exact hcheck (k, v) hv (check_bind_eq_ok.mp hstep).1
  · rw [← hsize, hlength, Nat.zero_add, ExtTreeMap.length_toList]

/-- The check of one property, apart from the count. -/
def propertyMatches (id : Int) (layer : LayerBuilder) (e : PropertySlot × PropertyDelta) :
    StorageResult Unit := do
  let _ ← verifyProperty id layer 0 e.1 e.2
  pure ()

theorem verifyProperty_eq (id : Int) (layer : LayerBuilder) (count : Nat)
    (e : PropertySlot × PropertyDelta) : verifyProperty id layer count e.1 e.2 = (do
      propertyMatches id layer e
      pure (count + 1)) := by
  unfold propertyMatches verifyProperty
  cases layer.properties[e.1]? with
  | none => rfl
  | some expected =>
    simp only
    split
    · rfl
    · cases propertyStatesEqual e.2.value expected.value with
      | error error => rfl
      | ok equal =>
        rw [ok_bind, ok_bind]
        cases mismatchWhen id !equal <;> rfl

theorem propertyMatches_ok (hbuilt : l.Built) (hbuilt' : l'.Built)
    {e : PropertySlot × PropertyDelta} (hentry : l.canonical.properties[e.1]? = some e.2)
    (h : propertyMatches id l' e = .ok ()) : l'.canonical.properties[e.1]? = some e.2 := by
  have hcanonical : ∀ l : LayerBuilder, l.canonical.properties[e.1]? =
      l.properties[e.1]?.map PropertyDelta.canonical := fun _ => ExtTreeMap.getElem?_map
  rw [hcanonical] at hentry ⊢
  obtain ⟨delta, hdelta, hd⟩ := Option.map_eq_some_iff.mp hentry
  obtain ⟨count, hverify, _⟩ := bind_eq_ok.mp h
  unfold verifyProperty at hverify
  cases hexpected : l'.properties[e.1]? with
  | none =>
    rw [hexpected] at hverify
    cases hverify
  | some expected =>
    rw [hexpected] at hverify
    simp only at hverify
    split at hverify
    · cases hverify
    · rename_i hop
      obtain ⟨equal, hequal, hverify⟩ := bind_eq_ok.mp hverify
      have htrue : equal = true := by
        simpa using mismatchWhen_ok.mp (check_bind_eq_ok.mp hverify).1
      subst htrue
      have hop : delta.op = expected.op := by
        rw [← hd] at hop
        exact Decidable.of_not_not hop
      have hbytes : ∃ bytes, LayerBuilder.valueBytes e.2 = .ok bytes ∧
          LayerBuilder.valueBytes expected = .ok bytes := by
        unfold LayerBuilder.valueBytes
        cases hv : e.2.value with
        | none =>
          cases hw : expected.value with
          | none => exact ⟨none, rfl, rfl⟩
          | some w =>
            rw [hv, hw] at hequal
            cases hequal
        | some v =>
          cases hw : expected.value with
          | none =>
            rw [hv, hw] at hequal
            cases hequal
          | some w =>
            rw [hv, hw] at hequal
            obtain ⟨bytes, hleft, hright⟩ := canonicalValuesEqual_true.mp hequal
            exact ⟨some bytes, bind_eq_ok.mpr ⟨bytes, hleft, rfl⟩,
              bind_eq_ok.mpr ⟨bytes, hright, rfl⟩⟩
      obtain ⟨bytes, hleft, hright⟩ := hbytes
      rw [← hd, LayerBuilder.valueBytes_canonical] at hleft
      rw [Option.map_some, ← hd]
      exact congrArg some (LayerBuilder.canonical_of_valueBytes
        (hbuilt.properties e.1 delta hdelta).2.2 (hbuilt'.properties e.1 expected hexpected).2.2
        hop hleft hright).symm

/-- **The check of the rows is enough**, whatever the hashes were. -/
theorem canonical_of_verified (hbuilt : l.Built) (h : ofLayer real l = .ok rows)
    (hbuilt' : l'.Built) (hverify : rows.verifyExistingLayer id l' = .ok ()) :
    l.canonical = l'.canonical := by
  unfold verifyExistingLayer at hverify
  simp only [check_bind_eq_ok] at hverify
  obtain ⟨hnodes, hlabels, hrelationships, hproperties⟩ := hverify
  have h₁ : l.nodes = l'.nodes := by
    unfold verifyStoredNodes at hnodes
    rw [visitNodes_persisted hbuilt h] at hnodes
    refine eq_of_counted (fun e => mismatchWhen id (decide (l'.nodes[e.1]? ≠ some e.2)))
      (fun e _ he => ?_) hnodes
    simpa using mismatchWhen_ok.mp he
  have h₂ : l.labels = l'.labels := by
    unfold verifyStoredLabels at hlabels
    rw [visitLabels_persisted hbuilt h] at hlabels
    refine eq_of_counted (fun e => mismatchWhen id (decide (l'.labels[e.1]? ≠ some e.2)))
      (fun e _ he => ?_) hlabels
    simpa using mismatchWhen_ok.mp he
  have h₃ : l.relationships = l'.relationships := by
    unfold verifyStoredRelationships at hrelationships
    rw [visitRelationships_persisted hbuilt h] at hrelationships
    refine eq_of_counted (fun e => mismatchWhen id
      (decide (l'.relationships[e.2.record.id]? ≠ some e.2))) (fun e hentry he => ?_) hrelationships
    rw [(hbuilt.relationships e.1 e.2 hentry).1] at he
    simpa using mismatchWhen_ok.mp he
  have h₄ : l.canonical.properties = l'.canonical.properties := by
    unfold verifyStoredProperties at hproperties
    rw [visitProperties_persisted hbuilt h] at hproperties
    simp only [verifyProperty_eq] at hproperties
    have hsize : l'.canonical.properties.size = l'.properties.size := ExtTreeMap.size_map
    rw [← hsize] at hproperties
    refine eq_of_counted (propertyMatches id l') (fun e hentry he => ?_) hproperties
    exact propertyMatches_ok hbuilt hbuilt' hentry he
  have h₅ : ∀ l : LayerBuilder, l.canonical = ⟨l.nodes, l.labels, l.relationships,
      l.canonical.properties⟩ := fun _ => rfl
  rw [h₅ l, h₅ l', h₁, h₂, h₃, h₄]

end LayerRows

/-! ## 3. The table -/

section Table

variable {H : Type} [DecidableEq H] (hash : Bytes → H) (real : RealColumn)

/-- The table of layers: under each identifier the content hash and the rows; and the next
    identifier. -/
structure LayerTable (H : Type) where
  nextId : Int := 1
  layers : ExtTreeMap Int (H × LayerRows) := ∅

namespace LayerTable

def existingLayerId (t : LayerTable H) (contentHash : H) : Option (Int × H × LayerRows) :=
  t.layers.toList.find? fun e => e.2.1 = contentHash

def allocateLayerId (t : LayerTable H) : StorageResult (Int × LayerTable H) :=
  if t.nextId ≤ 0 ∨ 2 ^ 63 ≤ t.nextId + 1 then
    .error (.corrupt "sequence 6 cannot allocate another positive INTEGER64 identity range")
  else .ok (t.nextId, { t with nextId := t.nextId + 1 })

def contentHash (layer : LayerBuilder) : StorageResult H := do
  let bytes ← layer.hashedBytes
  pure (hash bytes)

def persistLayer (t : LayerTable H) (layer : LayerBuilder) :
    StorageResult ((Int × H) × LayerTable H) := do
  let contentHash ← contentHash hash layer
  match t.existingLayerId contentHash with
  | some (id, _, rows) => do
    rows.verifyExistingLayer id layer
    pure ((id, contentHash), t)
  | none => do
    let (id, t) ← t.allocateLayerId
    let rows ← LayerRows.ofLayer real layer
    pure ((id, contentHash), { t with layers := t.layers.insert id (contentHash, rows) })

/-- One change of the table: a layer is persisted, or a stored one is dropped. -/
inductive Step : LayerTable H → LayerTable H → Prop
  | persist {t t' : LayerTable H} {layer : LayerBuilder} {id : Int × H} (hbuilt : layer.Built)
      (h : persistLayer hash real t layer = .ok (id, t')) : Step t t'
  | drop (t : LayerTable H) (id : Int) : Step t { t with layers := t.layers.erase id }

/-- What a run of such changes reaches. -/
inductive Reaches : LayerTable H → LayerTable H → Prop
  | refl (t : LayerTable H) : Reaches t t
  | tail {t t' t'' : LayerTable H} (h : Reaches t t') (hstep : Step hash real t' t'') :
      Reaches t t''

/-- **Each stored layer is one this code wrote**, and no other one has its hash. -/
structure Safe (t : LayerTable H) : Prop where
  written : ∀ (id : Int) h rows, t.layers[id]? = some (h, rows) → id < t.nextId ∧
    ∃ (l : LayerBuilder) (bytes : Bytes), l.Built ∧ l.hashedBytes = .ok bytes ∧ h = hash bytes ∧
      LayerRows.ofLayer real l = .ok rows
  unique : ∀ (id id' : Int) h rows rows', t.layers[id]? = some (h, rows) →
    t.layers[id']? = some (h, rows') → id = id'

variable {id : Int} {t t' : LayerTable H} {h : H}

theorem existingLayerId_some {t : LayerTable H} {contentHash h : H}
    (hfind : t.existingLayerId contentHash = some (id, h, rows)) :
    h = contentHash ∧ t.layers[id]? = some (contentHash, rows) := by
  have hhash : h = contentHash := by
    have := List.find?_some hfind
    simpa using this
  subst hhash
  exact ⟨rfl, lookup_of_mem (List.mem_of_find?_eq_some hfind)⟩

theorem existingLayerId_none {t : LayerTable H} {contentHash : H}
    (hfind : t.existingLayerId contentHash = none) (id : Int) (rows : LayerRows) :
    t.layers[id]? ≠ some (contentHash, rows) := by
  intro hentry
  have := List.find?_eq_none.mp hfind _ (mem_of_lookup hentry)
  simp at this

theorem persistLayer_ok (hp : persistLayer hash real t layer = .ok ((id, h), t')) :
    ∃ bytes, layer.hashedBytes = .ok bytes ∧ h = hash bytes ∧
      ((∃ rows, t.layers[id]? = some (h, rows) ∧ t' = t) ∨
        ((∀ (j : Int) rows, t.layers[j]? ≠ some (h, rows)) ∧ id = t.nextId ∧
          ∃ rows, LayerRows.ofLayer real layer = .ok rows ∧
            t' = ⟨t.nextId + 1, t.layers.insert id (h, rows)⟩)) := by
  unfold persistLayer at hp
  obtain ⟨contentHash, hcontent, hp⟩ := bind_eq_ok.mp hp
  obtain ⟨bytes, hbytes, hcontent⟩ := bind_eq_ok.mp hcontent
  cases hcontent
  refine ⟨bytes, hbytes, ?_⟩
  split at hp
  · rename_i j h' rows hfind
    obtain ⟨_, _, hp⟩ := bind_eq_ok.mp hp
    cases hp
    exact ⟨rfl, Or.inl ⟨rows, (existingLayerId_some hfind).2, rfl⟩⟩
  · rename_i hfind
    obtain ⟨⟨newId, t₁⟩, halloc, hp⟩ := bind_eq_ok.mp hp
    obtain ⟨rows, hrows, hp⟩ := bind_eq_ok.mp hp
    unfold allocateLayerId at halloc
    split at halloc
    · cases halloc
    · cases halloc
      cases hp
      exact ⟨rfl, Or.inr ⟨existingLayerId_none hfind, rfl, rows, hrows, rfl⟩⟩

/-- **A layer that is persisted is stored**, and nothing else changes. -/
theorem persistLayer_changes (hs : Safe hash real t) (hbuilt : layer.Built)
    (hp : persistLayer hash real t layer = .ok ((id, h), t')) :
    ∃ rows built bytes, t'.layers[id]? = some (hash bytes, rows) ∧ built.Built ∧
      built.hashedBytes = .ok bytes ∧ LayerRows.ofLayer real built = .ok rows ∧
      built.canonical = layer.canonical ∧
      (∀ (j : Int) e, t.layers[j]? = some e → t'.layers[j]? = some e) ∧
      (∀ (j : Int) e, t'.layers[j]? = some e → t.layers[j]? = some e ∨ e.2 = rows) := by
  obtain ⟨bytes, hbytes, hhash, hcase⟩ := persistLayer_ok hash real hp
  rcases hcase with ⟨_, _, rfl⟩ | ⟨_, rfl, rows, hrows, rfl⟩
  · unfold persistLayer at hp
    obtain ⟨contentHash, hcontent, hp⟩ := bind_eq_ok.mp hp
    split at hp
    · rename_i found h' rows hfind
      obtain ⟨hverify, hp⟩ := check_bind_eq_ok.mp hp
      cases hp
      obtain ⟨rfl, hentry⟩ := existingLayerId_some hfind
      obtain ⟨_, l, bytes', hl, hbytes', hstored, hrows⟩ := hs.written _ _ rows hentry
      rw [hstored] at hentry
      exact ⟨rows, l, bytes', hentry, hl, hbytes', hrows,
        LayerRows.canonical_of_verified hl hrows hbuilt hverify, fun _ _ he => he,
        fun _ _ he => Or.inl he⟩
    · obtain ⟨⟨newId, t₁⟩, halloc, hp⟩ := bind_eq_ok.mp hp
      obtain ⟨rows, hrows, hp⟩ := bind_eq_ok.mp hp
      unfold allocateLayerId at halloc
      split at halloc
      · cases halloc
      · cases halloc
        injection hp with hp
        have hnext : t'.nextId + 1 = t'.nextId := congrArg (fun r => r.2.nextId) hp
        omega
  · refine ⟨rows, layer, bytes, ?_, hbuilt, hbytes, hrows, rfl, fun j e he => ?_, fun j e he => ?_⟩
    · rw [lookup_insert, if_pos rfl, hhash]
    · have hlt := (hs.written j e.1 e.2 he).1
      rw [lookup_insert, if_neg (by omega)]
      exact he
    · rw [lookup_insert] at he
      split at he
      · cases he
        exact Or.inr rfl
      · exact Or.inl he

theorem safe_step (hs : Safe hash real t) (hstep : Step hash real t t') : Safe hash real t' := by
  cases hstep with
  | @persist _ layer id hbuilt h =>
    obtain ⟨id, contentHash⟩ := id
    obtain ⟨bytes, hbytes, hhash, hcase⟩ := persistLayer_ok hash real h
    rcases hcase with ⟨_, _, rfl⟩ | ⟨hnew, rfl, rows, hrows, rfl⟩
    · exact hs
    · constructor
      · intro j h' rows' hj
        rw [lookup_insert] at hj
        split at hj
        · rename_i hid
          cases hj
          subst hid
          exact ⟨Int.lt_succ _, layer, bytes, hbuilt, hbytes, hhash, hrows⟩
        · obtain ⟨hlt, hwritten⟩ := hs.written j h' rows' hj
          exact ⟨Int.lt_trans hlt (Int.lt_succ _), hwritten⟩
      · intro j j' h' rows₁ rows₂ hj hj'
        rw [lookup_insert] at hj hj'
        split at hj
        · rename_i hid
          cases hj
          split at hj'
          · rename_i hid'
            rw [hid, hid']
          · exact absurd hj' (hnew j' rows₂)
        · split at hj'
          · cases hj'
            exact absurd hj (hnew j rows₁)
          · exact hs.unique j j' h' rows₁ rows₂ hj hj'
  | drop id =>
    have hsub : ∀ (j : Int) e, (t.layers.erase id)[j]? = some e → t.layers[j]? = some e := by
      intro j e hj
      rw [lookup_erase] at hj
      split at hj
      · cases hj
      · exact hj
    exact ⟨fun j h rows hj => hs.written j h rows (hsub j _ hj), fun j j' h rows rows' hj hj' =>
      hs.unique j j' h rows rows' (hsub j _ hj) (hsub j' _ hj')⟩

/-- **Over every run the table is safe.** -/
theorem tableSafe {t : LayerTable H} (h : Reaches hash real {} t) : Safe hash real t := by
  induction h with
  | refl =>
    constructor
    · intro id h rows hid
      simp at hid
    · intro id id' h rows rows' hid
      simp at hid
  | tail _ hstep ih => exact safe_step hash real ih hstep

theorem nextId_le (h : Reaches hash real t t') : t.nextId ≤ t'.nextId := by
  induction h with
  | refl => exact Int.le_refl _
  | tail _ hstep ih =>
    cases hstep with
    | @persist _ layer id hbuilt hp =>
      obtain ⟨_, _, _, hcase⟩ := persistLayer_ok hash real hp
      rcases hcase with ⟨_, _, rfl⟩ | ⟨_, _, rows, _, rfl⟩
      · exact ih
      · exact Int.le_trans ih (Int.le_of_lt (Int.lt_succ _))
    | drop id => exact ih

/-- **A stored layer stays as it is**: its identifier is never used again. -/
theorem stored_stays (h : Reaches hash real t t')
    (hid : id < t.nextId) {e : H × LayerRows} (hstored : t'.layers[id]? = some e) :
    t.layers[id]? = some e := by
  induction h with
  | refl => exact hstored
  | @tail t₁ t₂ hrun hstep ih =>
    cases hstep with
    | @persist _ layer newId hbuilt hp =>
      obtain ⟨newId, contentHash⟩ := newId
      obtain ⟨_, _, _, hcase⟩ := persistLayer_ok hash real hp
      rcases hcase with ⟨_, _, rfl⟩ | ⟨_, rfl, rows, _, rfl⟩
      · exact ih hstored
      · have hle := nextId_le hash real hrun
        rw [lookup_insert, if_neg (by omega)] at hstored
        exact ih hstored
    | drop dropped =>
      rw [lookup_erase] at hstored
      split at hstored
      · cases hstored
      · exact ih hstored

/-! ## 4. Content addressing -/

omit [DecidableEq H] in
/-- Both checks of a stored layer pass. -/
theorem stored_verified (hinj : Function.Injective hash) {t : LayerTable H}
    (hs : Safe hash real t) (hstored : t.layers[id]? = some (h, rows)) :
    (∃ bytes, rows.storedBytes = .ok bytes ∧ hash bytes = h) ∧
      ∀ (layer : LayerBuilder) bytes, layer.Built → layer.hashedBytes = .ok bytes →
        hash bytes = h → rows.verifyExistingLayer id layer = .ok () := by
  obtain ⟨_, l, bytes, hbuilt, hbytes, rfl, hrows⟩ := hs.written id h rows hstored
  refine ⟨⟨bytes, LayerRows.storedBytes_persisted hbuilt hrows hbytes, rfl⟩, ?_⟩
  intro layer bytes' hbuilt' hbytes' hhash
  have hsame : bytes = bytes' := (hinj hhash).symm
  have hcanonical := (LayerBuilder.hashedBytes_iff hbuilt hbuilt' hbytes hbytes').mp hsame
  obtain ⟨fields, hfields, _⟩ := bind_eq_ok.mp hbytes'
  exact LayerRows.verifyExistingLayer_persisted hbuilt hrows id hcanonical hfields

theorem persistLayer_found (hinj : Function.Injective hash) {t : LayerTable H}
    (hs : Safe hash real t) (hbuilt : layer.Built) {bytes : Bytes}
    (hbytes : layer.hashedBytes = .ok bytes) (hstored : t.layers[id]? = some (hash bytes, rows)) :
    persistLayer hash real t layer = .ok ((id, hash bytes), t) := by
  have hcontent : contentHash hash layer = .ok (hash bytes) := bind_eq_ok.mpr ⟨bytes, hbytes, rfl⟩
  unfold persistLayer
  rw [hcontent, ok_bind]
  split
  · rename_i found h rows' hfind
    obtain ⟨rfl, hentry⟩ := existingLayerId_some hfind
    have hid := hs.unique found id _ rows' rows hentry hstored
    subst hid
    have hverify := (stored_verified hash real hinj hs hentry).2 layer bytes hbuilt hbytes rfl
    rw [hverify]
    rfl
  · rename_i hfind
    exact absurd hstored (existingLayerId_none hfind id rows)

theorem persistLayer_stores (hs : Safe hash real t)
    (hp : persistLayer hash real t layer = .ok ((id, h), t')) :
    (∃ rows, t'.layers[id]? = some (h, rows)) ∧ id < t'.nextId := by
  obtain ⟨bytes, hbytes, rfl, hcase⟩ := persistLayer_ok hash real hp
  rcases hcase with ⟨rows, hstored, rfl⟩ | ⟨_, rfl, rows, _, rfl⟩
  · exact ⟨⟨rows, hstored⟩, (hs.written id _ rows hstored).1⟩
  · refine ⟨⟨rows, ?_⟩, Int.lt_succ _⟩
    rw [lookup_insert, if_pos rfl]

/-- Two layers persisted along a run have one hash exactly when they are the same changes, and one
identifier while the first is stored. -/
theorem persisted_iff (hinj : Function.Injective hash) {t t₁ t₂ t₃ : LayerTable H}
    {l : LayerBuilder} {id id' : Int} {h h' : H} (hs : Safe hash real t) (hl : l.Built)
    (hl' : l'.Built) (hp : persistLayer hash real t l = .ok ((id, h), t₁))
    (hrun : Reaches hash real t₁ t₂) (hp' : persistLayer hash real t₂ l' = .ok ((id', h'), t₃)) :
    (h = h' ↔ l.canonical = l'.canonical) ∧
      ((∃ e, t₂.layers[id]? = some e) → (id = id' ↔ l.canonical = l'.canonical)) := by
  obtain ⟨⟨rows, hstored⟩, hid⟩ := persistLayer_stores hash real hs hp
  have hs₁ : Safe hash real t₁ := safe_step hash real hs (.persist hl hp)
  have hs₂ : Safe hash real t₂ := by
    clear hp'
    induction hrun with
    | refl => exact hs₁
    | tail _ hstep ih => exact safe_step hash real ih hstep
  obtain ⟨bytes, hbytes, rfl, _⟩ := persistLayer_ok hash real hp
  obtain ⟨bytes', hbytes', rfl, _⟩ := persistLayer_ok hash real hp'
  have hsame : hash bytes = hash bytes' ↔ l.canonical = l'.canonical := by
    rw [hinj.eq_iff]
    exact LayerBuilder.hashedBytes_iff hl hl' hbytes hbytes'
  refine ⟨hsame, fun hkept => ?_⟩
  obtain ⟨e, hkept⟩ := hkept
  -- the first layer is still the one stored under its identifier
  have he : t₂.layers[id]? = some (hash bytes, rows) := by
    have hback := stored_stays hash real hrun hid hkept
    rw [hstored] at hback
    cases hback
    exact hkept
  rw [← hsame]
  constructor
  · intro hids
    subst hids
    obtain ⟨⟨rows', hstored'⟩, _⟩ := persistLayer_stores hash real hs₂ hp'
    have hrun' : Reaches hash real t₂ t₃ := .tail (.refl t₂) (.persist hl' hp')
    have hback := stored_stays hash real hrun' (hs₂.written id _ rows he).1 hstored'
    rw [he] at hback
    exact congrArg Prod.fst (Option.some.inj hback)
  · intro hhash
    rw [hhash] at he
    have hfound := persistLayer_found hash real hinj hs₂ hl' hbytes' he
    rw [hfound] at hp'
    cases hp'
    rfl

/-- What content addressing means for layers over machine numbers. -/
structure ContentAddressed : Prop where
  /-- The canonical bytes are the same exactly when the changes are. -/
  encoding : ∀ {l l' : LayerBuilder} {bytes bytes' : Bytes}, l.Built → l'.Built →
    l.canonicalLce1 = .ok bytes → l'.canonicalLce1 = .ok bytes' →
      (bytes = bytes' ↔ l.canonical = l'.canonical)
  /-- Changes of different slots make the same layer in any order. -/
  order : ∀ {changes changes' : List LayerChange} {l : LayerBuilder},
    (changes.map fun c => c.entry.slot).Nodup → changes.Perm changes' →
      LayerBuilder.supply changes = .ok l → LayerBuilder.supply changes' = .ok l
  /-- The stored rows hash to the bytes of the layer, and decode to a layer of the same bytes. -/
  rows : ∀ {l : LayerBuilder} {rows : LayerRows} {bytes : Bytes}, l.Built →
    LayerRows.ofLayer real l = .ok rows → l.canonicalLce1 = .ok bytes →
      rows.storedBytes = .ok bytes ∧ ∃ l', rows.loadLayer = .ok l' ∧ l'.canonicalLce1 = .ok bytes
  /-- Over any run from an empty table, layers are identified by their changes. -/
  identity : ∀ {t t₁ t₂ t₃ : LayerTable H} {l l' : LayerBuilder} {id id' : Int} {h h' : H},
    Reaches hash real {} t → l.Built → l'.Built →
      persistLayer hash real t l = .ok ((id, h), t₁) → Reaches hash real t₁ t₂ →
        persistLayer hash real t₂ l' = .ok ((id', h'), t₃) →
          (h = h' ↔ l.canonical = l'.canonical) ∧
            ((∃ e, t₂.layers[id]? = some e) → (id = id' ↔ l.canonical = l'.canonical))
  /-- Over any run from an empty table, both checks of a stored layer pass. -/
  verified : ∀ {t : LayerTable H} {id : Int} {h : H} {rows : LayerRows}, Reaches hash real {} t →
    t.layers[id]? = some (h, rows) →
      (∃ bytes, rows.storedBytes = .ok bytes ∧ hash bytes = h) ∧
        ∀ (layer : LayerBuilder) bytes, layer.Built → layer.hashedBytes = .ok bytes →
          hash bytes = h → rows.verifyExistingLayer id layer = .ok ()

/-- **Layers are addressed by their content**, up to the canonical form of their values. -/
theorem layerContentAddressing (hinj : Function.Injective hash) : ContentAddressed hash real where
  encoding := by
    intro l l' bytes bytes' hl hl' h h'
    exact LayerBuilder.canonicalLce1_iff hl hl' h h'
  order := supply_perm
  rows := by
    intro l rows bytes hbuilt hrows hbytes
    refine ⟨LayerRows.storedBytes_persisted hbuilt hrows
      (LayerBuilder.hashedBytes_of_canonicalLce1 hbytes), l.canonical,
      LayerRows.loadLayer_persisted hbuilt hrows, ?_⟩
    rw [LayerBuilder.canonicalLce1_canonical, hbytes]
  identity := by
    intro t t₁ t₂ t₃ l l' id id' h h' hreach hl hl' hp hrun hp'
    exact persisted_iff hash real hinj (tableSafe hash real hreach) hl hl' hp hrun hp'
  verified := by
    intro t id h rows hreach hstored
    exact stored_verified hash real hinj (tableSafe hash real hreach) hstored

end LayerTable

end Table

/-! ## 5. Cases -/

/-- A REAL column that keeps its number as it is. -/
def exactColumn : RealColumn where
  keep := id
  keeps := by
    intro x hx
    unfold F64.numericEq
    simp [hx]

theorem newNode_built {id : NodeId} {l : LayerBuilder} (hid : id < 2 ^ 63)
    (h : LayerBuilder.supply [.addNode id] = .ok l) : l.Built := by
  refine built_supply (fun c hc => ?_) (by simp) h
  cases List.mem_singleton.mp hc
  exact hid

/-- The new node 1 and the new node 2 have different bytes. -/
theorem layerContentAddressing_newNodes : ∃ l l' bytes bytes',
    LayerBuilder.supply [.addNode 1] = .ok l ∧ LayerBuilder.supply [.addNode 2] = .ok l' ∧
      l.canonicalLce1 = .ok bytes ∧ l'.canonicalLce1 = .ok bytes' ∧ bytes ≠ bytes' := by
  have hl : LayerBuilder.supply [.addNode 1] = .ok (.ofNode 1 true) := rfl
  have hl' : LayerBuilder.supply [.addNode 2] = .ok (.ofNode 2 true) := rfl
  have hbytes : ∃ bytes, (LayerBuilder.ofNode 1 true).canonicalLce1 = .ok bytes := ⟨_, rfl⟩
  have hbytes' : ∃ bytes, (LayerBuilder.ofNode 2 true).canonicalLce1 = .ok bytes := ⟨_, rfl⟩
  obtain ⟨bytes, hbytes⟩ := hbytes
  obtain ⟨bytes', hbytes'⟩ := hbytes'
  refine ⟨_, _, bytes, bytes', hl, hl', hbytes, hbytes', fun heq => ?_⟩
  have hsame := ((LayerTable.layerContentAddressing (id : Bytes → Bytes) exactColumn
    Function.injective_id).encoding (newNode_built (by decide) hl) (newNode_built (by decide) hl')
    hbytes hbytes').mp heq
  have hnodes : (LayerBuilder.ofNode 1 true).nodes[(1 : NodeId)]? =
      (LayerBuilder.ofNode 2 true).nodes[(1 : NodeId)]? :=
    congrArg (fun l : LayerBuilder => l.nodes[(1 : NodeId)]?) hsame
  unfold LayerBuilder.ofNode at hnodes
  simp at hnodes

/-- A NaN of another payload than the canonical one. -/
def oddNan : F64 := ⟨0x7ff8000000000001⟩

/-- **Layers of different changes can have the same bytes**: the payload of a NaN is not kept. -/
theorem nanLayers_sameBytes : ∃ l l' : LayerBuilder,
    LayerBuilder.supply [.setProperty (.node, 1, 1) (.float ⟨0x7ff8000000000000⟩)] = .ok l ∧
      LayerBuilder.supply [.setProperty (.node, 1, 1) (.float oddNan)] = .ok l' ∧
        l ≠ l' ∧ (∃ bytes, l.canonicalLce1 = .ok bytes ∧ l'.canonicalLce1 = .ok bytes) := by
  refine ⟨_, _, rfl, rfl, fun heq => ?_, ⟨_, rfl, rfl⟩⟩
  have hvalue := congrArg (fun l : LayerBuilder =>
    l.properties[((.node, 1, 1) : PropertySlot)]?) heq
  cases hvalue

end Lithograph.Storage
