/-
  File:      Lithograph/Query/Ingestion/CsvRows.lean
  Subject:   The CSV reader of `LOAD CSV` (`query/ingestion/csv_rows.rs`).

  The reader takes physical lines out of its buffer and feeds them to a record character by
  character. Checkpoints and memory leases can only end a read and are left out.

  * **`nextRecord_text`**: a record does not depend on how the buffers split the bytes.
-/
import Lithograph.Library.Lines
import Lithograph.Query.Error

namespace Lithograph.Query.Ingestion

open Library Storage

/-! ## 1. The record -/

structure CsvRecordState where
  fields : List Text
  field : Text
  inQuotes : Bool
  afterQuote : Bool
  sawInput : Bool
  complete : Bool
  deriving DecidableEq, Repr

namespace CsvRecordState

def new : CsvRecordState := ⟨[], [], false, false, false, false⟩

def pushCharacter (state : CsvRecordState) (value : Char) : CsvRecordState :=
  { state with field := state.field ++ [value] }

def finishField (state : CsvRecordState) : CsvRecordState :=
  { state with fields := state.fields ++ [state.field], field := [] }

end CsvRecordState

def loadCsvError (message : String) : QueryError := ⟨.resource, message⟩

/-- `load_csv_io_error`; what `from_utf8` says of the bytes is left out of the message. -/
def loadCsvIoError : QueryError := ⟨.io, "LOAD CSV read failed"⟩

def CsvRecordState.finishEof (state : CsvRecordState) : QueryResult (Option (List Text)) :=
  if state.inQuotes then .error (loadCsvError "LOAD CSV ended inside a quoted field")
  else if !state.sawInput && state.field.isEmpty && state.fields.isEmpty then .ok none
  else .ok (some state.finishField.fields)

/-- The new state, and whether the next character was taken along. -/
def consumeQuotedCharacter (character : Char) (peek : Option Char) (state : CsvRecordState) :
    CsvRecordState × Bool :=
  if character = '\\' ∧ peek = some '"' then (state.pushCharacter '"', true)
  else if character ≠ '"' then (state.pushCharacter character, false)
  else if peek = some '"' then (state.pushCharacter '"', true)
  else ({ state with inQuotes := false, afterQuote := true }, false)

/-- `None` where the character is neither; a record ending takes the LF after its CR along. -/
def consumeDelimiterOrRecordEnding (character : Char) (peek : Option Char) (delimiter : Char)
    (state : CsvRecordState) : Option (CsvRecordState × Bool) :=
  if character = delimiter then some (state.finishField, false)
  else if ¬ (character = '\r' ∨ character = '\n') then none
  else some ({ state.finishField with complete := true },
    decide (character = '\r' ∧ peek = some '\n'))

def consumeOutsideQuotes (character : Char) (peek : Option Char) (delimiter : Char)
    (state : CsvRecordState) : QueryResult (CsvRecordState × Bool) :=
  match consumeDelimiterOrRecordEnding character peek delimiter state with
  | some (state, took) => .ok ({ state with afterQuote := false }, took)
  | none =>
    if state.afterQuote then
      .error (loadCsvError "LOAD CSV has characters after a closing quote")
    else if character = '"' then
      if !state.field.isEmpty then
        .error (loadCsvError "LOAD CSV has an unexpected quote in an unquoted field")
      else .ok ({ state with inQuotes := true }, false)
    else .ok (state.pushCharacter character, false)

/-- The body of the loop of `consume_line`. -/
def consumeCharacter (delimiter character : Char) (peek : Option Char) (state : CsvRecordState) :
    QueryResult (CsvRecordState × Bool) :=
  if state.inQuotes then .ok (consumeQuotedCharacter character peek state)
  else consumeOutsideQuotes character peek delimiter state

/-- The loop of `consume_line`: the state, and the characters that it did not come to. -/
def consumeChars (delimiter : Char) : Text → CsvRecordState → QueryResult (CsvRecordState × Text)
  | [], state => .ok (state, [])
  | character :: chars, state =>
    match consumeCharacter delimiter character chars.head? state with
    | .error error => .error error
    | .ok (state, took) =>
      match took, chars with
      | true, _ :: chars =>
        if state.complete then .ok (state, chars) else consumeChars delimiter chars state
      | _, chars =>
        if state.complete then .ok (state, chars) else consumeChars delimiter chars state

/-- `consume_line`: what is left of the line is dropped with it. -/
def consumeLine (delimiter : Char) (line : Text) (state : CsvRecordState) :
    QueryResult CsvRecordState :=
  match consumeChars delimiter line { state with sawInput := true } with
  | .error error => .error error
  | .ok (state, _) => .ok state

/-! ## 2. The reader -/

/-- The buffers that the `BufReader` hands out, one after the other. -/
structure CsvRows where
  reader : List Bytes
  delimiter : Char
  firstLine : Bool

variable {rows : CsvRows}

namespace CsvRows

def new (reader : List Bytes) (delimiter : Char) : CsvRows := ⟨reader, delimiter, true⟩

/-- The loop of `read_line`: the bytes of a line, and the buffers after it. An empty buffer is the
    end of the input. -/
def readLineLoop : List Bytes → Bytes → Bytes × List Bytes
  | [], line => (line, [])
  | bytes :: reader, line =>
    if bytes.isEmpty then (line, reader)
    else
      match bytes.findIdx? (· == 10) with
      | some index =>
        let rest := bytes.drop (index + 1)
        (line ++ bytes.take (index + 1), if rest.isEmpty then reader else rest :: reader)
      | none => readLineLoop reader (line ++ bytes)

/-- The byte order mark at the front of the first line is dropped. -/
def stripMark (firstLine : Bool) (line : Text) : Text :=
  if firstLine && line.head? == some '\uFEFF' then line.tail else line

def readLine (self : CsvRows) : QueryResult (Option Text × CsvRows) :=
  let (line, reader) := readLineLoop self.reader []
  if line.isEmpty then .ok (none, { self with reader := reader })
  else
    match decodeUtf8 line with
    | none => .error loadCsvIoError
    | some line => .ok (some (stripMark self.firstLine line),
        { self with reader := reader, firstLine := false })

theorem readLineLoop_shrinks : ∀ (reader : List Bytes) (line : Bytes),
    line.length + reader.flatten.length =
      (readLineLoop reader line).1.length + (readLineLoop reader line).2.flatten.length
  | [], line => rfl
  | bytes :: reader, line => by
    unfold readLineLoop
    by_cases hempty : bytes.isEmpty = true
    · rw [if_pos hempty, List.isEmpty_iff.mp hempty]
      rfl
    rw [if_neg hempty]
    cases hindex : bytes.findIdx? (· == 10) with
    | none =>
      have ih := readLineLoop_shrinks reader (line ++ bytes)
      rw [List.length_append] at ih
      rw [List.flatten_cons, List.length_append]
      dsimp only
      omega
    | some index =>
      have hparts := congrArg List.length (List.take_append_drop (index + 1) bytes)
      rw [List.length_append] at hparts
      dsimp only
      rw [List.flatten_cons, List.length_append, List.length_append]
      split
      · rename_i hrest
        rw [List.isEmpty_iff.mp hrest, List.length_nil] at hparts
        omega
      · rw [List.flatten_cons, List.length_append]
        omega

theorem readLine_shrinks {self : CsvRows} {line : Text}
    (h : self.readLine = .ok (some line, rows)) :
    rows.reader.flatten.length < self.reader.flatten.length := by
  have hsum := readLineLoop_shrinks self.reader []
  rw [List.length_nil, Nat.zero_add] at hsum
  unfold readLine at h
  dsimp only at h
  split at h
  · cases h
  · rename_i hline
    have hpos : 0 < (readLineLoop self.reader []).1.length :=
      List.length_pos_of_ne_nil fun hnil => hline (List.isEmpty_iff.mpr hnil)
    split at h
    · cases h
    · obtain ⟨_, rfl⟩ := Prod.mk.inj (Except.ok.inj h)
      dsimp only
      omega

/-- The loop of `next_record`. -/
def nextRecordLoop (self : CsvRows) (state : CsvRecordState) :
    QueryResult (Option (List Text) × CsvRows) :=
  match _hread : self.readLine with
  | .error error => .error error
  | .ok (none, rows) =>
    match state.finishEof with
    | .error error => .error error
    | .ok record => .ok (record, rows)
  | .ok (some line, rows) =>
    match consumeLine self.delimiter line state with
    | .error error => .error error
    | .ok state =>
      if state.complete then .ok (some state.fields, rows) else rows.nextRecordLoop state
termination_by self.reader.flatten.length
decreasing_by exact readLine_shrinks _hread

def nextRecord (self : CsvRows) : QueryResult (Option (List Text) × CsvRows) :=
  self.nextRecordLoop CsvRecordState.new

end CsvRows

/-! ## 3. Reading a text -/

/-- The loop of `next_record` over the text that is left, line by line. -/
def recordFrom (delimiter : Char) (firstLine : Bool) (text : Text) (state : CsvRecordState) :
    QueryResult (Option (List Text) × Text) :=
  if _hempty : text = [] then
    match state.finishEof with
    | .error error => .error error
    | .ok record => .ok (record, [])
  else
    match consumeLine delimiter (CsvRows.stripMark firstLine (cutLine '\n' text).1) state with
    | .error error => .error error
    | .ok state =>
      if state.complete then .ok (some state.fields, (cutLine '\n' text).2)
      else recordFrom delimiter false (cutLine '\n' text).2 state
termination_by text.length
decreasing_by exact cutLine_shorter _hempty

/-- The reader has the text before it, in whatever buffers. -/
structure Holds (rows : CsvRows) (text : Text) : Prop where
  nonempty : ∀ bytes ∈ rows.reader, bytes ≠ []
  bytes : rows.reader.flatten = encode text

theorem cutLine_findIdx {bytes : Bytes} {index : Nat} (h : bytes.findIdx? (· == 10) = some index)
    (rest : Bytes) : cutLine 10 (bytes ++ rest) =
      (bytes.take (index + 1), bytes.drop (index + 1) ++ rest) := by
  obtain ⟨hlt, hfound, hbefore⟩ := List.findIdx?_eq_some_iff_getElem.mp h
  have hten : bytes[index] = 10 := eq_of_beq hfound
  have hnone : ∀ b ∈ bytes.take index, b ≠ 10 := by
    intro b hb heq
    obtain ⟨i, hi, hget⟩ := List.mem_iff_getElem.mp hb
    rw [List.length_take] at hi
    rw [List.getElem_take] at hget
    exact hbefore i (by omega) (beq_iff_eq.mpr (hget.trans heq))
  have hsplit : bytes = bytes.take index ++ 10 :: bytes.drop (index + 1) := by
    rw [← hten, List.getElem_cons_drop, List.take_append_drop]
  have htake : bytes.take (index + 1) = bytes.take index ++ [10] := by
    rw [List.take_add_one, List.getElem?_eq_getElem hlt, hten]
    rfl
  rw [htake]
  conv_lhs => rw [hsplit, List.append_assoc, List.cons_append]
  exact cutLine_found hnone _

/-- **A line is what comes before the first line feed.** -/
theorem readLineLoop_cut : ∀ {reader : List Bytes} (line : Bytes), (∀ bytes ∈ reader, bytes ≠ []) →
    (CsvRows.readLineLoop reader line).1 = line ++ (cutLine 10 reader.flatten).1 ∧
      (CsvRows.readLineLoop reader line).2.flatten = (cutLine 10 reader.flatten).2 ∧
      ∀ bytes ∈ (CsvRows.readLineLoop reader line).2, bytes ≠ []
  | [], line, _ => ⟨(List.append_nil line).symm, rfl, fun _ h => absurd h List.not_mem_nil⟩
  | bytes :: reader, line, h => by
    have hothers : ∀ b ∈ reader, b ≠ [] := fun b hb => h b (.tail _ hb)
    have hempty : ¬ bytes.isEmpty = true :=
      fun hnil => h bytes (.head _) (List.isEmpty_iff.mp hnil)
    unfold CsvRows.readLineLoop
    rw [if_neg hempty, List.flatten_cons]
    cases hindex : bytes.findIdx? (· == 10) with
    | none =>
      have hnone : ∀ b ∈ bytes, b ≠ 10 := by
        intro b hb heq
        have hfalse := List.findIdx?_eq_none_iff.mp hindex b hb
        rw [heq] at hfalse
        cases hfalse
      obtain ⟨hline, hrest, hkept⟩ := readLineLoop_cut (line ++ bytes) hothers
      rw [cutLine_missing hnone]
      exact ⟨hline.trans (List.append_assoc _ _ _), hrest, hkept⟩
    | some index =>
      rw [cutLine_findIdx hindex]
      refine ⟨rfl, ?_, ?_⟩
      · dsimp only
        split
        · rename_i hdrop
          rw [List.isEmpty_iff.mp hdrop]
          rfl
        · rfl
      · dsimp only
        split
        · exact hothers
        · rename_i hdrop
          intro b hb
          obtain rfl | hb := List.mem_cons.mp hb
          · exact fun hnil => hdrop (List.isEmpty_iff.mpr hnil)
          · exact hothers b hb

theorem readLine_end (h : Holds rows []) : rows.readLine = .ok (none, rows) := by
  have hreader : rows.reader = [] := by
    cases hbuffers : rows.reader with
    | nil => rfl
    | cons bytes reader =>
      have hflat := h.bytes
      rw [hbuffers, List.flatten_cons] at hflat
      exact absurd (List.append_eq_nil_iff.mp hflat).1
        (h.nonempty bytes (hbuffers ▸ (.head _)))
  unfold CsvRows.readLine
  cases rows
  subst hreader
  rfl

theorem readLine_line {text : Text} (h : Holds rows text) (hne : text ≠ []) :
    ∃ rest, rows.readLine =
        .ok (some (CsvRows.stripMark rows.firstLine (cutLine '\n' text).1), rest) ∧
      Holds rest (cutLine '\n' text).2 ∧ rest.delimiter = rows.delimiter ∧
      rest.firstLine = false := by
  obtain ⟨hline, hrest, hkept⟩ := readLineLoop_cut [] h.nonempty
  rw [h.bytes, cutLine_encode] at hline hrest
  rw [List.nil_append] at hline
  have hnonempty : ¬ (encode (cutLine '\n' text).1).isEmpty = true := by
    intro hnil
    have hdecoded := decodeUtf8_encode (cutLine '\n' text).1
    rw [List.isEmpty_iff.mp hnil] at hdecoded
    exact cutLine_ne_nil hne (Option.some.inj (hdecoded.symm.trans (decodeUtf8_encode [])))
  refine ⟨{ rows with reader := (CsvRows.readLineLoop rows.reader []).2, firstLine := false }, ?_,
    ⟨hkept, hrest⟩, rfl, rfl⟩
  unfold CsvRows.readLine
  dsimp only
  rw [hline, if_neg hnonempty, decodeUtf8_encode]

theorem nextRecordLoop_end {rest : CsvRows} (h : rows.readLine = .ok (none, rest))
    (state : CsvRecordState) : rows.nextRecordLoop state =
      match state.finishEof with
      | .error error => .error error
      | .ok record => .ok (record, rest) := by
  rw [CsvRows.nextRecordLoop]
  split
  · rename_i heq
    rw [h] at heq
    cases heq
  · rename_i heq
    rw [h] at heq
    cases heq
    rfl
  · rename_i heq
    rw [h] at heq
    cases heq

theorem nextRecordLoop_line {rest : CsvRows} {line : Text}
    (h : rows.readLine = .ok (some line, rest)) (state : CsvRecordState) :
    rows.nextRecordLoop state =
      match consumeLine rows.delimiter line state with
      | .error error => .error error
      | .ok state =>
        if state.complete then .ok (some state.fields, rest) else rest.nextRecordLoop state := by
  rw [CsvRows.nextRecordLoop]
  split
  · rename_i heq
    rw [h] at heq
    cases heq
  · rename_i heq
    rw [h] at heq
    cases heq
  · rename_i heq
    rw [h] at heq
    cases heq
    rfl

/-- What the reader over the text says, the reader over the buffers says. -/
def Follows (rows : CsvRows) (text : Text) (state : CsvRecordState) :
    QueryResult (Option (List Text) × Text) → Prop
  | .error error => rows.nextRecordLoop state = .error error
  | .ok (record, left) => ∃ rest, rows.nextRecordLoop state = .ok (record, rest) ∧
      Holds rest left ∧ rest.delimiter = rows.delimiter ∧
      (rows.firstLine = false ∨ text ≠ [] → rest.firstLine = false)

/-- **The buffers do not matter to a record.** -/
theorem nextRecord_text {rows : CsvRows} {text : Text} (h : Holds rows text)
    (state : CsvRecordState) :
    Follows rows text state (recordFrom rows.delimiter rows.firstLine text state) := by
  induction hsize : text.length using Nat.strongRecOn generalizing text rows state with
  | _ size ih =>
    rw [recordFrom]
    by_cases hempty : text = []
    · subst hempty
      have hend := nextRecordLoop_end (readLine_end h) state
      cases hfinish : state.finishEof with
      | error error =>
        rw [hfinish] at hend
        exact hend
      | ok record =>
        rw [hfinish] at hend
        exact ⟨rows, hend, h, rfl, fun hmark => hmark.resolve_right fun hne => hne rfl⟩
    · obtain ⟨rest, hread, hrest, hdelimiter, hfirst⟩ := readLine_line h hempty
      have hline := nextRecordLoop_line hread state
      rw [dif_neg hempty]
      cases hconsume : consumeLine rows.delimiter
          (CsvRows.stripMark rows.firstLine (cutLine '\n' text).1) state with
      | error error =>
        rw [hconsume] at hline
        exact hline
      | ok next =>
        rw [hconsume] at hline
        dsimp only at hline ⊢
        cases hcomplete : next.complete with
        | true =>
          rw [hcomplete, if_pos rfl] at hline
          exact ⟨rest, hline, hrest, hdelimiter, fun _ => hfirst⟩
        | false =>
          rw [hcomplete, if_neg Bool.false_ne_true] at hline
          have hshort : (cutLine '\n' text).2.length < size := hsize ▸ cutLine_shorter hempty
          have hlater := ih _ hshort hrest next rfl
          rw [hdelimiter, hfirst] at hlater
          cases hrecord : recordFrom rows.delimiter false (cutLine '\n' text).2 next with
          | error error =>
            rw [hrecord] at hlater
            exact hline.trans hlater
          | ok produced =>
            rw [hrecord] at hlater
            obtain ⟨last, hran, hholds, hsame, hmark⟩ := hlater
            exact ⟨last, hline.trans hran, hholds, hsame.trans hdelimiter,
              fun _ => hmark (.inl hfirst)⟩

end Lithograph.Query.Ingestion
