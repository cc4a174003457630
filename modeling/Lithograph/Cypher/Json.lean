/-
  File:      Lithograph/Cypher/Json.lean
  Subject:   JSON, and query values as JSON (`cypher/json.rs`).

  The object shapes that carry a `$type` are a parameter, and so is the rounding of an integer
  beyond 64 bits to a float.

  * `comes_back_iff`: JSON is written again as it was read exactly when it `Survives`.
-/
import Lithograph.Cypher.Value

namespace Lithograph.Cypher

open Library Storage

/-- The parts of the codec that only a `$type` reaches, and the rounding of a large integer. -/
structure JsonShapes where
  /-- `as_f64` of an integer outside `i64`. -/
  roundInteger : Int → F64
  /-- `decode_object` of the fields of an object with a tag. -/
  decodeTagged : Text → List (Text × Json) → ValueResult Value
  /-- The shape of a value that is no null, boolean, number, string, list or map. -/
  encodeTagged : Value → Json

def typeKey : Text := "$type".toList

def jsSafeInteger : Int := 9007199254740991

/-! ## 1. Reading -/

section Codec

variable (shapes : JsonShapes)

/-- `decode_number`, of an integer. -/
def decodeInteger (n : Int) : Value :=
  if -(2 ^ 63) ≤ n ∧ n ≤ 2 ^ 63 - 1 then .integer n else .float (shapes.roundInteger n)

mutual

/-- `decode_json_internal`. -/
def decodeJson : Json → ValueResult Value
  | .null => .ok .null
  | .bool value => .ok (.boolean value)
  | .int value => .ok (decodeInteger shapes value)
  | .float value => .ok (.float value)
  | .string value => .ok (.string value)
  | .array items => do
    let values ← decodeItems items
    pure (.list values)
  | .object fields =>
    match fields.lookup typeKey with
    | none => do
      let entries ← decodePlainMap fields
      pure (.map entries)
    | some (.string tag) => shapes.decodeTagged tag fields
    | some _ => .error ⟨"$type must be a string"⟩

def decodeItems : List Json → ValueResult (List Value)
  | [] => .ok []
  | item :: rest => do
    let value ← decodeJson item
    let values ← decodeItems rest
    pure (value :: values)

def decodePlainMap : List (Text × Json) → ValueResult (List (Text × Value))
  | [] => .ok []
  | (key, item) :: rest => do
    let value ← decodeJson item
    let entries ← decodePlainMap rest
    pure ((key, value) :: entries)

end

/-! ## 2. Writing -/

/-- `tagged_text_checked`. -/
def taggedText (tag : String) (text : Text) : Json :=
  .object [(typeKey, .string tag.toList), ("value".toList, .string text)]

/-- `encode_nonfinite_float`. -/
def encodeNonfinite (x : F64) : Json :=
  if x.isNan then taggedText "Float" "NaN".toList
  else if x.bits.toNat < 2 ^ 63 then taggedText "Float" "Infinity".toList
  else taggedText "Float" "-Infinity".toList

mutual

/-- `encode_json_checked`. -/
def encodeJson : Value → Json
  | .null => .null
  | .boolean value => .bool value
  | .integer value =>
    if -jsSafeInteger ≤ value ∧ value ≤ jsSafeInteger then .int value
    else taggedText "Integer" (integerText value)
  | .float value => if isFinite value then .float value else encodeNonfinite value
  | .string value => .string value
  | .list values => .array (encodeItems values)
  | .map entries =>
    if (entries.lookup typeKey).isSome then
      .object [(typeKey, .string "Map".toList), ("entries".toList, .object (encodeEntries entries))]
    else .object (encodeEntries entries)
  | value => shapes.encodeTagged value

def encodeItems : List Value → List Json
  | [] => []
  | value :: rest => encodeJson value :: encodeItems rest

def encodeEntries : List (Text × Value) → List (Text × Json)
  | [] => []
  | (key, value) :: rest => (key, encodeJson value) :: encodeEntries rest

end

/-! ## 3. What comes back -/

mutual

/-- JSON that is written as it was read. -/
def Survives : Json → Prop
  | .int n => -jsSafeInteger ≤ n ∧ n ≤ jsSafeInteger
  | .float x => isFinite x = true
  | .array items => ItemsSurvive items
  | .object fields =>
    match fields.lookup typeKey with
    | none => FieldsSurvive fields
    | some (.string tag) =>
      ∃ value, shapes.decodeTagged tag fields = .ok value ∧ encodeJson shapes value = .object fields
    | some _ => False
  | _ => True

def ItemsSurvive : List Json → Prop
  | [] => True
  | item :: rest => Survives item ∧ ItemsSurvive rest

def FieldsSurvive : List (Text × Json) → Prop
  | [] => True
  | (_, item) :: rest => Survives item ∧ FieldsSurvive rest

end

variable {shapes}

theorem lookup_decodePlainMap (key : Text) : ∀ {fields : List (Text × Json)}
    {entries : List (Text × Value)}, decodePlainMap shapes fields = .ok entries →
      ((entries.lookup key).isSome ↔ (fields.lookup key).isSome)
  | [], entries, h => by
    cases h
    rfl
  | (k, item) :: rest, entries, h => by
    unfold decodePlainMap at h
    obtain ⟨value, _, h⟩ := bind_eq_ok.mp h
    obtain ⟨others, hothers, h⟩ := bind_eq_ok.mp h
    cases h
    have ih := lookup_decodePlainMap key hothers
    cases hk : key == k <;> simp [List.lookup_cons, hk, ih]

mutual

/-- **JSON comes back exactly when it survives.** -/
theorem comes_back_iff : ∀ {json : Json},
    (∃ value, decodeJson shapes json = .ok value ∧ encodeJson shapes value = json) ↔
      Survives shapes json
  | .null => by simp [decodeJson, encodeJson, Survives]
  | .bool _ => by simp [decodeJson, encodeJson, Survives]
  | .string _ => by simp [decodeJson, encodeJson, Survives]
  | .float x => by
    simp only [decodeJson, Survives, Except.ok.injEq, exists_eq_left', encodeJson]
    cases hx : isFinite x
    · simp only [Bool.false_eq_true, if_false, iff_false]
      unfold encodeNonfinite taggedText
      split <;> (try split) <;> simp
    · simp
  | .int n => by
    simp only [decodeJson, Survives, Except.ok.injEq, exists_eq_left', decodeInteger]
    by_cases hsafe : -jsSafeInteger ≤ n ∧ n ≤ jsSafeInteger
    · have hrange : -(2 ^ 63) ≤ n ∧ n ≤ 2 ^ 63 - 1 := by
        unfold jsSafeInteger at hsafe
        omega
      rw [if_pos hrange]
      simp [encodeJson, hsafe]
    · refine iff_of_false ?_ hsafe
      split
      · simp [encodeJson, hsafe, taggedText]
      · simp only [encodeJson]
        split
        · simp
        · unfold encodeNonfinite taggedText
          split <;> (try split) <;> simp
  | .array items => by
    unfold decodeJson Survives
    rw [← items_come_back_iff]
    constructor
    · rintro ⟨value, hdecode, hencode⟩
      obtain ⟨values, hvalues, hdecode⟩ := bind_eq_ok.mp hdecode
      cases hdecode
      simp only [encodeJson, Json.array.injEq] at hencode
      exact ⟨values, hvalues, hencode⟩
    · rintro ⟨values, hvalues, hencode⟩
      exact ⟨.list values, bind_eq_ok.mpr ⟨values, hvalues, rfl⟩, by simp [encodeJson, hencode]⟩
  | .object fields => by
    unfold decodeJson Survives
    cases htag : fields.lookup typeKey with
    | some tag => cases tag <;> simp
    | none =>
      rw [← fields_come_back_iff]
      constructor
      · rintro ⟨value, hdecode, hencode⟩
        obtain ⟨entries, hentries, hdecode⟩ := bind_eq_ok.mp hdecode
        cases hdecode
        have hplain := lookup_decodePlainMap typeKey hentries
        rw [htag] at hplain
        simp only [encodeJson, hplain] at hencode
        exact ⟨entries, hentries, by simpa using hencode⟩
      · rintro ⟨entries, hentries, hencode⟩
        have hplain := lookup_decodePlainMap typeKey hentries
        rw [htag] at hplain
        refine ⟨.map entries, bind_eq_ok.mpr ⟨entries, hentries, rfl⟩, ?_⟩
        simp [encodeJson, hplain, hencode]

theorem items_come_back_iff : ∀ {items : List Json},
    (∃ values, decodeItems shapes items = .ok values ∧ encodeItems shapes values = items) ↔
      ItemsSurvive shapes items
  | [] => by simp [decodeItems, encodeItems, ItemsSurvive]
  | item :: rest => by
    unfold decodeItems ItemsSurvive
    rw [← comes_back_iff, ← items_come_back_iff]
    constructor
    · rintro ⟨values, hdecode, hencode⟩
      obtain ⟨value, hvalue, hdecode⟩ := bind_eq_ok.mp hdecode
      obtain ⟨others, hothers, hdecode⟩ := bind_eq_ok.mp hdecode
      cases hdecode
      simp only [encodeItems, List.cons.injEq] at hencode
      exact ⟨⟨value, hvalue, hencode.1⟩, others, hothers, hencode.2⟩
    · rintro ⟨⟨value, hvalue, hitem⟩, others, hothers, hrest⟩
      refine ⟨value :: others, ?_, by simp [encodeItems, hitem, hrest]⟩
      exact bind_eq_ok.mpr ⟨value, hvalue, bind_eq_ok.mpr ⟨others, hothers, rfl⟩⟩

theorem fields_come_back_iff : ∀ {fields : List (Text × Json)},
    (∃ entries, decodePlainMap shapes fields = .ok entries ∧ encodeEntries shapes entries = fields) ↔
      FieldsSurvive shapes fields
  | [] => by simp [decodePlainMap, encodeEntries, FieldsSurvive]
  | (key, item) :: rest => by
    unfold decodePlainMap FieldsSurvive
    rw [← comes_back_iff, ← fields_come_back_iff]
    constructor
    · rintro ⟨values, hdecode, hencode⟩
      obtain ⟨value, hvalue, hdecode⟩ := bind_eq_ok.mp hdecode
      obtain ⟨others, hothers, hdecode⟩ := bind_eq_ok.mp hdecode
      cases hdecode
      simp only [encodeEntries, List.cons.injEq, Prod.mk.injEq, true_and] at hencode
      exact ⟨⟨value, hvalue, hencode.1⟩, others, hothers, hencode.2⟩
    · rintro ⟨⟨value, hvalue, hitem⟩, others, hothers, hrest⟩
      refine ⟨(key, value) :: others, ?_, by simp [encodeEntries, hitem, hrest]⟩
      exact bind_eq_ok.mpr ⟨value, hvalue, bind_eq_ok.mpr ⟨others, hothers, rfl⟩⟩

end

end Codec

end Lithograph.Cypher
