/-
  File:      Lithograph/Query/Ingestion/CsvText.lean
  Subject:   What `LOAD CSV` reads of records written as CSV (`query/ingestion/csv_rows.rs`).

  The reader takes a physical line up to its LF and drops what is left of it when a record is
  complete.

  * **`csv_comes_back`**: exactly which written records come back.
-/
import Lithograph.Query.Ingestion.CsvRows

namespace Lithograph.Query.Ingestion

open Library Storage

/-! ## 1. Writing records -/

/-- A character that a field without quotes cannot have. -/
def special (delimiter c : Char) : Bool :=
  c == delimiter || c == '"' || c == '\r' || c == '\n'

def escapeQuotes (field : Text) : Text :=
  field.flatMap fun c => if c = '"' then ['"', '"'] else [c]

def fieldText (delimiter : Char) (field : Text) : Text :=
  if field.any (special delimiter) then '"' :: (escapeQuotes field ++ ['"']) else field

def recordText (delimiter : Char) : List Text → Text
  | [] => []
  | [field] => fieldText delimiter field
  | field :: fields => fieldText delimiter field ++ delimiter :: recordText delimiter fields

inductive RecordEnd where
  | lf | crlf | cr
  deriving DecidableEq, Repr

def RecordEnd.text : RecordEnd → Text
  | .lf => ['\n']
  | .crlf => ['\r', '\n']
  | .cr => ['\r']

def recordsText (delimiter : Char) (ending : RecordEnd) (records : List (List Text)) : Text :=
  records.flatMap fun record => recordText delimiter record ++ ending.text

/-- No backslash stands before a quote or at the end. -/
def Unescaped : Text → Prop
  | [] => True
  | c :: rest => (c = '\\' → rest ≠ [] ∧ rest.head? ≠ some '"') ∧ Unescaped rest

instance decidableUnescaped : (field : Text) → Decidable (Unescaped field)
  | [] => isTrue trivial
  | c :: rest =>
    have := decidableUnescaped rest
    inferInstanceAs (Decidable ((c = '\\' → rest ≠ [] ∧ rest.head? ≠ some '"') ∧ Unescaped rest))

/-! ## 2. One character -/

variable {delimiter : Char} {state next : CsvRecordState}

variable {c : Char} {rest text left : Text} {peek : Option Char} {took : Bool} {record : List Text}
  {records : List (List Text)}

theorem consumeCharacter_plain (hc : special delimiter c = false)
    (hquotes : state.inQuotes = false) (hafter : state.afterQuote = false) (peek : Option Char) :
    consumeCharacter delimiter c peek state = .ok (state.pushCharacter c, false) := by
  simp only [special, Bool.or_eq_false_iff, beq_eq_false_iff_ne] at hc
  obtain ⟨⟨⟨hdelimiter, hquote⟩, hcr⟩, hlf⟩ := hc
  have hother : ¬ (c = '\r' ∨ c = '\n') := fun h => h.elim hcr hlf
  unfold consumeCharacter consumeOutsideQuotes consumeDelimiterOrRecordEnding
  rw [hquotes, if_neg Bool.false_ne_true, if_neg hdelimiter, if_pos hother]
  simp only [hafter, if_neg hquote, if_neg Bool.false_ne_true]

theorem consumeCharacter_delimiter (hquotes : state.inQuotes = false) (peek : Option Char) :
    consumeCharacter delimiter delimiter peek state =
      .ok ({ state.finishField with afterQuote := false }, false) := by
  unfold consumeCharacter consumeOutsideQuotes consumeDelimiterOrRecordEnding
  rw [hquotes, if_neg Bool.false_ne_true, if_pos rfl]

theorem consumeCharacter_ending (hend : c = '\r' ∨ c = '\n') (hne : c ≠ delimiter)
    (fields : List Text) (field : Text) (after saw : Bool) (peek : Option Char) :
    consumeCharacter delimiter c peek ⟨fields, field, false, after, saw, false⟩ =
      .ok (⟨fields ++ [field], [], false, false, saw, true⟩,
        decide (c = '\r' ∧ peek = some '\n')) := by
  unfold consumeCharacter consumeOutsideQuotes consumeDelimiterOrRecordEnding
  rw [if_neg Bool.false_ne_true, if_neg hne, if_neg fun hnot => hnot hend]
  rfl

theorem consumeCharacter_lineFeed (peek : Option Char) :
    consumeCharacter delimiter '\n' peek state = consumeCharacter delimiter '\n' none state := by
  have hslash : ¬ ('\n' = '\\' ∧ peek = some '"') := fun h => absurd h.1 (by decide)
  have hnone : ¬ ('\n' = '\\' ∧ none = some '"') := fun h => absurd h.1 (by decide)
  have hquote : '\n' ≠ '"' := by decide
  unfold consumeCharacter consumeQuotedCharacter consumeOutsideQuotes consumeDelimiterOrRecordEnding
  rw [if_neg hslash, if_neg hnone, if_pos hquote, if_pos hquote]
  have hcr : ∀ p : Option Char, decide ('\n' = '\r' ∧ p = some '\n') = false :=
    fun p => decide_eq_false fun h => absurd h.1 (by decide)
  rw [hcr, hcr]

theorem consumeChars_cons (c : Char) (chars : Text) :
    consumeChars delimiter (c :: chars) state =
      match consumeCharacter delimiter c chars.head? state with
      | .error error => .error error
      | .ok (next, took) =>
        if next.complete then .ok (next, if took then chars.tail else chars)
        else consumeChars delimiter (if took then chars.tail else chars) next := by
  rw [consumeChars]
  cases consumeCharacter delimiter c chars.head? state with
  | error error => rfl
  | ok produced =>
    obtain ⟨next, took⟩ := produced
    cases took with
    | false => rfl
    | true =>
      cases chars with
      | nil => rfl
      | cons first rest => rfl

/-! ## 3. One record -/

/-- In a field without quotes. -/
abbrev unquoted (fields : List Text) (field : Text) : CsvRecordState :=
  ⟨fields, field, false, false, true, false⟩

/-- Between the quotes of a field. -/
abbrev quoted (fields : List Text) (field : Text) : CsvRecordState :=
  ⟨fields, field, true, false, true, false⟩

/-- Behind the closing quote of a field. -/
abbrev closed (fields : List Text) (field : Text) : CsvRecordState :=
  ⟨fields, field, false, true, true, false⟩

/-- Behind the record terminator. -/
abbrev ended (fields : List Text) : CsvRecordState := ⟨fields, [], false, false, true, true⟩

theorem consumeChars_plain (rest : Text) (fields : List Text) : ∀ {text : Text} (field : Text),
    text.any (special delimiter) = false →
    consumeChars delimiter (text ++ rest) (unquoted fields field) =
      consumeChars delimiter rest (unquoted fields (field ++ text))
  | [], field, _ => by rw [List.append_nil, List.nil_append]
  | c :: text, field, htext => by
    rw [List.any_cons, Bool.or_eq_false_iff] at htext
    have ih := consumeChars_plain rest fields (field ++ [c]) htext.2
    rw [List.append_assoc] at ih
    rw [List.cons_append, consumeChars_cons, consumeCharacter_plain htext.1 rfl rfl]
    exact ih

theorem consumeChars_quoted {rest : Text} (hrest : rest.head? ≠ some '"') (fields : List Text) :
    ∀ {text : Text} (field : Text), Unescaped text →
    consumeChars delimiter (escapeQuotes text ++ '"' :: rest) (quoted fields field) =
      consumeChars delimiter rest (closed fields (field ++ text))
  | [], field, _ => by
    have hclose : consumeCharacter delimiter '"' rest.head? (quoted fields field) =
        .ok (closed fields field, false) := by
      unfold consumeCharacter consumeQuotedCharacter
      rw [if_pos rfl, if_neg fun h => absurd h.1 (by decide), if_neg fun h => h rfl, if_neg hrest]
    have hnone : escapeQuotes [] ++ '"' :: rest = '"' :: rest := rfl
    rw [List.append_nil, hnone, consumeChars_cons, hclose]
    rfl
  | c :: text, field, htext => by
    have ih := consumeChars_quoted hrest fields (field ++ [c]) htext.2
    rw [List.append_assoc] at ih
    by_cases hquote : c = '"'
    · subst hquote
      exact ih
    · have hkeep : escapeQuotes (c :: text) ++ '"' :: rest =
          c :: (escapeQuotes text ++ '"' :: rest) := by
        unfold escapeQuotes
        rw [List.flatMap_cons, if_neg hquote]
        rfl
      -- a backslash would take a quote along, but none follows it
      have hslash : ¬ (c = '\\' ∧ (escapeQuotes text ++ '"' :: rest).head? = some '"') := by
        intro ⟨hc, hhead⟩
        obtain ⟨hne, hnext⟩ := htext.1 hc
        cases text with
        | nil => exact hne rfl
        | cons first text =>
          have hfirst : first ≠ '"' := fun heq => hnext (by rw [heq]; rfl)
          unfold escapeQuotes at hhead
          rw [List.flatMap_cons, if_neg hfirst] at hhead
          exact hfirst (Option.some.inj hhead)
      have hpush : consumeCharacter delimiter c (escapeQuotes text ++ '"' :: rest).head?
          (quoted fields field) = .ok (quoted fields (field ++ [c]), false) := by
        unfold consumeCharacter consumeQuotedCharacter
        rw [if_pos rfl, if_neg hslash, if_pos hquote]
        rfl
      rw [hkeep, consumeChars_cons, hpush]
      exact ih

/-- A field terminator that `FIELDTERMINATOR` allows. -/
structure Separates (delimiter : Char) : Prop where
  quote : delimiter ≠ '"'
  cr : delimiter ≠ '\r'
  lf : delimiter ≠ '\n'

theorem consumeChars_field (hd : Separates delimiter) (hrest : rest.head? ≠ some '"')
    (fields : List Text) {field : Text} (hfield : Unescaped field) :
    ∃ after, consumeChars delimiter (fieldText delimiter field ++ rest) (unquoted fields []) =
      consumeChars delimiter rest ⟨fields, field, false, after, true, false⟩ := by
  unfold fieldText
  cases hspecial : field.any (special delimiter) with
  | false =>
    have hplain := consumeChars_plain rest fields [] hspecial
    exact ⟨false, hplain⟩
  | true =>
    have hopen : ∀ peek, consumeCharacter delimiter '"' peek (unquoted fields []) =
        .ok (quoted fields [], false) := by
      intro peek
      unfold consumeCharacter consumeOutsideQuotes consumeDelimiterOrRecordEnding
      rw [if_neg Bool.false_ne_true, if_neg hd.quote.symm, if_pos (by decide)]
      rfl
    refine ⟨true, ?_⟩
    rw [if_pos rfl, List.cons_append, List.append_assoc, consumeChars_cons, hopen]
    exact consumeChars_quoted hrest fields [] hfield

theorem consumeChars_delimiter (rest : Text) (fields : List Text) (field : Text) (after : Bool) :
    consumeChars delimiter (delimiter :: rest) ⟨fields, field, false, after, true, false⟩ =
      consumeChars delimiter rest (unquoted (fields ++ [field]) []) := by
  rw [consumeChars_cons, consumeCharacter_delimiter rfl]
  rfl

/-- A record terminator takes nothing of the next record. -/
theorem consumeChars_ending (hd : Separates delimiter) (ending : RecordEnd)
    (hrest : ending = .cr → rest.head? ≠ some '\n') (fields : List Text) (field : Text)
    (after : Bool) :
    consumeChars delimiter (ending.text ++ rest) ⟨fields, field, false, after, true, false⟩ =
      .ok (ended (fields ++ [field]), rest) := by
  cases ending with
  | lf =>
    have hends := consumeCharacter_ending (.inr rfl) hd.lf.symm fields field after true rest.head?
    have htext : RecordEnd.lf.text ++ rest = '\n' :: rest := rfl
    rw [htext, consumeChars_cons, hends, decide_eq_false fun h => absurd h.1 (by decide)]
    rfl
  | crlf =>
    have hends := consumeCharacter_ending (.inl rfl) hd.cr.symm fields field after true (some '\n')
    have htext : RecordEnd.crlf.text ++ rest = '\r' :: '\n' :: rest := rfl
    rw [htext, consumeChars_cons, List.head?_cons, hends]
    rfl
  | cr =>
    have hends := consumeCharacter_ending (.inl rfl) hd.cr.symm fields field after true rest.head?
    have htext : RecordEnd.cr.text ++ rest = '\r' :: rest := rfl
    rw [htext, consumeChars_cons, hends, decide_eq_false fun h => hrest rfl h.2]
    rfl

theorem consumeChars_record (hd : Separates delimiter) (ending : RecordEnd) {rest : Text}
    (hrest : ending = .cr → rest.head? ≠ some '\n') : ∀ {record : List Text} (fields : List Text),
    record ≠ [] → (∀ field ∈ record, Unescaped field) →
    consumeChars delimiter (recordText delimiter record ++ (ending.text ++ rest))
        (unquoted fields []) = .ok (ended (fields ++ record), rest)
  | [], _, hne, _ => absurd rfl hne
  | [field], fields, _, hfields => by
    have hhead : (ending.text ++ rest).head? ≠ some '"' := by
      cases ending <;> exact fun h => absurd (Option.some.inj h) (by decide)
    obtain ⟨after, hfield⟩ :=
      consumeChars_field hd hhead fields (hfields field (.head _))
    exact hfield.trans (consumeChars_ending hd ending hrest fields field after)
  | field :: second :: record, fields, _, hfields => by
    have hothers : ∀ f ∈ second :: record, Unescaped f :=
      fun f hf => hfields f (.tail _ hf)
    have ih := consumeChars_record hd ending hrest (fields ++ [field])
      (List.cons_ne_nil second record) hothers
    have hhead : (delimiter :: (recordText delimiter (second :: record) ++
        (ending.text ++ rest))).head? ≠ some '"' := fun h => hd.quote (Option.some.inj h)
    obtain ⟨after, hfield⟩ :=
      consumeChars_field hd hhead fields (hfields field (.head _))
    rw [List.append_assoc] at ih
    have hrecord : recordText delimiter (field :: second :: record) =
        fieldText delimiter field ++ delimiter :: recordText delimiter (second :: record) := rfl
    rw [hrecord, List.append_assoc, List.cons_append, hfield, consumeChars_delimiter]
    exact ih

/-! ## 4. Lines -/

/-- **What one character does to a record.** -/
inductive Consumes (delimiter c : Char) (peek : Option Char) (state : CsvRecordState) :
    CsvRecordState → Bool → Prop where
  | quote : state.inQuotes = true → peek = some '"' →
      Consumes delimiter c peek state (state.pushCharacter '"') true
  | letter : state.inQuotes = true → c ≠ '"' →
      Consumes delimiter c peek state (state.pushCharacter c) false
  | close : state.inQuotes = true →
      Consumes delimiter c peek state { state with inQuotes := false, afterQuote := true } false
  | field : state.inQuotes = false →
      Consumes delimiter c peek state { state.finishField with afterQuote := false } false
  | record (took : Bool) : state.inQuotes = false → (took = true → peek = some '\n') →
      Consumes delimiter c peek state
        { state.finishField with afterQuote := false, complete := true } took
  | opens : state.inQuotes = false → state.afterQuote = false → state.field = [] →
      Consumes delimiter c peek state { state with inQuotes := true } false
  | plain : state.inQuotes = false → state.afterQuote = false → special delimiter c = false →
      Consumes delimiter c peek state (state.pushCharacter c) false

theorem consumes_of_ok (h : consumeCharacter delimiter c peek state = .ok (next, took)) :
    Consumes delimiter c peek state next took := by
  unfold consumeCharacter at h
  by_cases hquotes : state.inQuotes = true
  · rw [if_pos hquotes] at h
    have hpair := Except.ok.inj h
    unfold consumeQuotedCharacter at hpair
    by_cases hslash : c = '\\' ∧ peek = some '"'
    · rw [if_pos hslash] at hpair
      obtain ⟨rfl, rfl⟩ := Prod.mk.inj hpair
      exact .quote hquotes hslash.2
    rw [if_neg hslash] at hpair
    by_cases hletter : c ≠ '"'
    · rw [if_pos hletter] at hpair
      obtain ⟨rfl, rfl⟩ := Prod.mk.inj hpair
      exact .letter hquotes hletter
    rw [if_neg hletter] at hpair
    by_cases hpeek : peek = some '"'
    · rw [if_pos hpeek] at hpair
      obtain ⟨rfl, rfl⟩ := Prod.mk.inj hpair
      exact .quote hquotes hpeek
    · rw [if_neg hpeek] at hpair
      obtain ⟨rfl, rfl⟩ := Prod.mk.inj hpair
      exact .close hquotes
  · rw [if_neg hquotes] at h
    rw [Bool.not_eq_true] at hquotes
    unfold consumeOutsideQuotes consumeDelimiterOrRecordEnding at h
    by_cases hdelimiter : c = delimiter
    · rw [if_pos hdelimiter] at h
      obtain ⟨rfl, rfl⟩ := Prod.mk.inj (Except.ok.inj h)
      exact .field hquotes
    rw [if_neg hdelimiter] at h
    by_cases hend : ¬ (c = '\r' ∨ c = '\n')
    · rw [if_pos hend] at h
      by_cases hafter : state.afterQuote = true
      · rw [if_pos hafter] at h
        cases h
      rw [if_neg hafter] at h
      rw [Bool.not_eq_true] at hafter
      by_cases hquote : c = '"'
      · rw [if_pos hquote] at h
        by_cases hfield : (!state.field.isEmpty) = true
        · rw [if_pos hfield] at h
          cases h
        · rw [if_neg hfield] at h
          obtain ⟨rfl, rfl⟩ := Prod.mk.inj (Except.ok.inj h)
          rw [Bool.not_eq_true, Bool.not_eq_false'] at hfield
          exact .opens hquotes hafter (List.isEmpty_iff.mp hfield)
      · rw [if_neg hquote] at h
        obtain ⟨rfl, rfl⟩ := Prod.mk.inj (Except.ok.inj h)
        obtain ⟨hcr, hlf⟩ := not_or.mp hend
        refine .plain hquotes hafter ?_
        simp only [special, Bool.or_eq_false_iff, beq_eq_false_iff_ne]
        exact ⟨⟨⟨hdelimiter, hquote⟩, hcr⟩, hlf⟩
    · rw [if_neg hend] at h
      obtain ⟨rfl, rfl⟩ := Prod.mk.inj (Except.ok.inj h)
      exact .record _ hquotes fun htook => (of_decide_eq_true htook).2

theorem Consumes.saw (h : Consumes delimiter c peek state next took) :
    next.sawInput = state.sawInput := by
  cases h <;> rfl

theorem taken_shorter (took : Bool) (chars : Text) :
    (if took then chars.tail else chars).length ≤ chars.length := by
  cases took with
  | false => exact Nat.le_refl _
  | true =>
    show chars.tail.length ≤ chars.length
    rw [List.length_tail]
    exact Nat.sub_le _ _

theorem consumeChars_left : ∀ {text left : Text} {state next : CsvRecordState},
    consumeChars delimiter text state = .ok (next, left) →
    next.sawInput = state.sawInput ∧ (next.complete = false → left = []) ∧
      ∃ used, text = used ++ left ∧ (used = [] → next = state)
  | [], left, state, next, h => by
    obtain ⟨rfl, rfl⟩ := Prod.mk.inj (Except.ok.inj h)
    exact ⟨rfl, fun _ => rfl, [], rfl, fun _ => rfl⟩
  | c :: text, left, state, next, h => by
    rw [consumeChars_cons] at h
    cases hstep : consumeCharacter delimiter c text.head? state with
    | error error =>
      rw [hstep] at h
      cases h
    | ok produced =>
      obtain ⟨middle, took⟩ := produced
      have hsaw := (consumes_of_ok hstep).saw
      rw [hstep] at h
      dsimp only at h
      have hfront : ∃ used, text = used ++ if took then text.tail else text := by
        cases took with
        | false => exact ⟨[], rfl⟩
        | true =>
          cases text with
          | nil => exact ⟨[], rfl⟩
          | cons first rest => exact ⟨[first], rfl⟩
      have hshort := taken_shorter took text
      obtain ⟨front, hfront⟩ := hfront
      cases hcomplete : middle.complete with
      | true =>
        rw [hcomplete, if_pos rfl] at h
        obtain ⟨rfl, rfl⟩ := Prod.mk.inj (Except.ok.inj h)
        refine ⟨hsaw, fun hopen => ?_, c :: front, congrArg (c :: ·) hfront,
          fun hnil => by cases hnil⟩
        rw [hcomplete] at hopen
        cases hopen
      | false =>
        rw [hcomplete, if_neg Bool.false_ne_true] at h
        obtain ⟨hsame, hall, used, hused, _⟩ := consumeChars_left h
        refine ⟨hsame.trans hsaw, hall, c :: (front ++ used), ?_, fun hnil => by cases hnil⟩
        rw [List.cons_append, List.append_assoc, ← hused]
        exact congrArg (c :: ·) hfront
termination_by text => text.length

/-- **No character looks past a line feed.** -/
theorem consumeChars_append (rest : Text) : ∀ {line : Text} {state : CsvRecordState},
    (∀ c ∈ line.getLast?, c = '\n') → state.complete = false →
    consumeChars delimiter (line ++ rest) state =
      match consumeChars delimiter line state with
      | .error error => .error error
      | .ok (next, left) =>
        if next.complete then .ok (next, left ++ rest) else consumeChars delimiter rest next
  | [], state, _, hopen => by
    show _ = if state.complete then Except.ok (state, [] ++ rest)
      else consumeChars delimiter rest state
    rw [hopen, if_neg Bool.false_ne_true, List.nil_append]
  | c :: line, state, hlast, hopen => by
    have hpeek : consumeCharacter delimiter c (line ++ rest).head? state =
        consumeCharacter delimiter c line.head? state := by
      cases line with
      | nil =>
        obtain rfl := hlast c rfl
        exact (consumeCharacter_lineFeed _).trans (consumeCharacter_lineFeed _).symm
      | cons first line => rfl
    rw [List.cons_append, consumeChars_cons, consumeChars_cons, hpeek]
    cases hstep : consumeCharacter delimiter c line.head? state with
    | error error => rfl
    | ok produced =>
      obtain ⟨next, took⟩ := produced
      dsimp only
      have hafter : (if took then (line ++ rest).tail else line ++ rest) =
          (if took then line.tail else line) ++ rest := by
        cases took with
        | false => rfl
        | true =>
          cases line with
          | cons first line => rfl
          | nil =>
            -- a character that took the next one along saw it in the line
            have hsome := consumes_of_ok hstep
            cases hsome with
            | quote _ hp => cases hp
            | record _ _ hp => cases hp rfl
      have hends : ∀ d ∈ (if took then line.tail else line).getLast?, d = '\n' := by
        intro d hd
        cases took with
        | false =>
          cases line with
          | nil => cases hd
          | cons first line => exact hlast d (by rw [List.getLast?_cons_cons]; exact hd)
        | true =>
          cases line with
          | nil => cases hd
          | cons first line =>
            cases line with
            | nil => cases hd
            | cons second line =>
              exact hlast d (by rw [List.getLast?_cons_cons, List.getLast?_cons_cons]; exact hd)
      have hshort := taken_shorter took line
      rw [hafter]
      cases hcomplete : next.complete with
      | true => rw [if_pos rfl, if_pos rfl]; dsimp only; rw [hcomplete, if_pos rfl]
      | false =>
        exact consumeChars_append rest hends hcomplete
termination_by line => line.length

theorem cutLine_behind {first used tail : Text} (hfirst : ∀ c ∈ first, c ≠ '\n')
    (h : first ++ ['\n'] = used ++ tail) (rest : Text) :
    (if used.getLast? = some '\n' then tail ++ rest
      else (cutLine '\n' (tail ++ rest)).2) = rest := by
  obtain rfl | ⟨middle, c, rfl⟩ := List.eq_nil_or_concat tail
  · rw [List.append_nil] at h
    rw [← h, List.getLast?_concat, if_pos rfl, List.nil_append]
  · rw [List.concat_eq_append, ← List.append_assoc] at h
    obtain ⟨rfl, hc⟩ := List.append_inj' h rfl
    obtain rfl := (List.cons.inj hc).1
    have hused : used.getLast? ≠ some '\n' := fun hlast =>
      hfirst '\n' (List.mem_append_left _ (List.mem_of_getLast? hlast)) rfl
    have hmiddle : ∀ c ∈ middle, c ≠ '\n' := fun c hc => hfirst c (List.mem_append_right _ hc)
    rw [if_neg hused, List.concat_eq_append, List.append_assoc, List.singleton_append,
      cutLine_found hmiddle]

/-- **What is left behind a record.** -/
theorem recordFrom_consume {used : Text} {state next : CsvRecordState}
    (h : consumeChars delimiter text state = .ok (next, left)) (hcomplete : next.complete = true)
    (hopen : state.complete = false) (hsaw : state.sawInput = true) (hsplit : text = used ++ left) :
    recordFrom delimiter false text state =
      .ok (some next.fields, if used.getLast? = some '\n' then left
        else (cutLine '\n' left).2) := by
  induction hsize : text.length using Nat.strongRecOn generalizing text used state with
  | _ size ih =>
    have hempty : text ≠ [] := by
      intro hnil
      subst hnil
      obtain ⟨rfl, _⟩ := Prod.mk.inj (Except.ok.inj h)
      rw [hopen] at hcomplete
      cases hcomplete
    have hstate : { state with sawInput := true } = state := by rw [← hsaw]
    have hmark : CsvRows.stripMark false (cutLine '\n' text).1 = (cutLine '\n' text).1 := rfl
    have hlines := cutLine_append '\n' text
    rw [recordFrom, dif_neg hempty]
    unfold consumeLine
    rw [hmark, hstate]
    obtain ⟨first, hfirst, hline⟩ | ⟨hnone, hall⟩ := cutLine_cases '\n' text
    · have hlast : ∀ c ∈ (cutLine '\n' text).1.getLast?, c = '\n' := by
        intro c hc
        rw [hline, List.getLast?_append] at hc
        exact (Option.some.inj hc).symm
      have happend : consumeChars delimiter _ state = _ :=
        consumeChars_append (cutLine '\n' text).2 hlast hopen
      rw [hlines, h] at happend
      cases hconsume : consumeChars delimiter (cutLine '\n' text).1 state with
      | error error =>
        rw [hconsume] at happend
        cases happend
      | ok produced =>
        obtain ⟨middle, tail⟩ := produced
        obtain ⟨hsame, _, front, hfront, _⟩ := consumeChars_left hconsume
        rw [hconsume] at happend
        dsimp only at happend ⊢
        cases hmiddle : middle.complete with
        | true =>
          rw [hmiddle, if_pos rfl] at happend
          obtain ⟨rfl, rfl⟩ := Prod.mk.inj (Except.ok.inj happend)
          have hparts : front ++ (tail ++ (cutLine '\n' text).2) = text := by
            rw [← List.append_assoc, ← hfront, hlines]
          have hused : used = front := (List.append_cancel_right (hparts.trans hsplit)).symm
          have hbehind := cutLine_behind hfirst (hline.symm.trans hfront) (cutLine '\n' text).2
          rw [if_pos rfl, hused, hbehind]
        | false =>
          rw [hmiddle, if_neg Bool.false_ne_true] at happend
          obtain ⟨_, _, later, hlater, hmoved⟩ := consumeChars_left happend.symm
          have hnonempty : later ≠ [] := by
            intro hnil
            rw [hmoved hnil, hmiddle] at hcomplete
            cases hcomplete
          have hparts : (cutLine '\n' text).1 ++ later ++ left = text := by
            rw [List.append_assoc, ← hlater, hlines]
          have hused : used.getLast? = later.getLast? := by
            rw [← List.append_cancel_right (hparts.trans hsplit),
              List.getLast?_append_of_ne_nil _ hnonempty]
          have hshort : (cutLine '\n' text).2.length < size := hsize ▸ cutLine_shorter hempty
          rw [if_neg Bool.false_ne_true, hused]
          exact ih _ hshort happend.symm hmiddle (hsame.trans hsaw) hlater rfl
    · rw [hall, h]
      have hused : used.getLast? ≠ some '\n' := fun hlast =>
        hnone '\n' (hsplit ▸ List.mem_append_left _ (List.mem_of_getLast? hlast)) rfl
      have hleft : ∀ c ∈ left, c ≠ '\n' := fun c hc =>
        hnone c (hsplit ▸ List.mem_append_right _ hc)
      have hcut := cutLine_missing hleft []
      rw [List.append_nil] at hcut
      dsimp only
      rw [hcomplete, if_pos rfl, if_neg hused, hcut]
      rfl

/-- **A written record is read.** -/
theorem recordFrom_record (hd : Separates delimiter) (ending : RecordEnd)
    (hrest : ending = .cr → rest.head? ≠ some '\n') (hne : record ≠ [])
    (hfields : ∀ field ∈ record, Unescaped field) :
    recordFrom delimiter false (recordText delimiter record ++ (ending.text ++ rest))
        (unquoted [] []) =
      .ok (some record, if ending = .cr then (cutLine '\n' rest).2 else rest) := by
  have hconsume := consumeChars_record hd ending hrest [] hne hfields
  have hrecord :=
    recordFrom_consume hconsume rfl rfl rfl (List.append_assoc _ ending.text rest).symm
  rw [hrecord, List.nil_append]
  cases ending with
  | lf => rw [RecordEnd.text, List.getLast?_concat, if_pos rfl, if_neg (by decide)]
  | crlf =>
    have hlast : (recordText delimiter record ++ RecordEnd.crlf.text).getLast? = some '\n' := by
      rw [List.getLast?_append]
      rfl
    rw [hlast, if_pos rfl, if_neg (by decide)]
  | cr => rw [RecordEnd.text, List.getLast?_concat, if_neg (by decide), if_pos rfl]

/-! ## 5. The front of the text -/

theorem recordFrom_new (firstLine : Bool) (hne : text ≠ []) :
    recordFrom delimiter firstLine text .new =
      recordFrom delimiter firstLine text (unquoted [] []) := by
  rw [recordFrom, recordFrom, dif_neg hne, dif_neg hne]
  rfl

theorem recordFrom_end (firstLine : Bool) :
    recordFrom delimiter firstLine [] .new = .ok (none, []) := by
  rw [recordFrom, dif_pos rfl]
  rfl

theorem recordFrom_unmarked (h : text.head? ≠ some '\uFEFF') (state : CsvRecordState) :
    recordFrom delimiter true text state = recordFrom delimiter false text state := by
  have hline : (cutLine '\n' text).1.head? = text.head? := by
    cases text with
    | nil => rfl
    | cons c text =>
      unfold cutLine
      split <;> rfl
  have hmark : CsvRows.stripMark true (cutLine '\n' text).1 =
      CsvRows.stripMark false (cutLine '\n' text).1 := by
    unfold CsvRows.stripMark
    rw [hline, Bool.true_and, Bool.false_and, if_neg Bool.false_ne_true]
    exact if_neg fun heq => h (eq_of_beq heq)
  rw [recordFrom, recordFrom, hmark]

theorem recordFrom_marked (hne : text ≠ []) (state : CsvRecordState) :
    recordFrom delimiter true ('\uFEFF' :: text) state = recordFrom delimiter false text state := by
  have hcut : cutLine '\n' ('\uFEFF' :: text) =
      ('\uFEFF' :: (cutLine '\n' text).1, (cutLine '\n' text).2) := cutLine_cons (by decide) text
  rw [recordFrom, recordFrom, dif_neg (List.cons_ne_nil _ _), dif_neg hne, hcut]
  rfl

theorem recordFrom_mark : recordFrom delimiter true ['\uFEFF'] .new = .ok (some [[]], []) := by
  have hcut : cutLine '\n' ['\uFEFF'] = (['\uFEFF'], []) := cutLine_cons (by decide) []
  rw [recordFrom, dif_neg (List.cons_ne_nil _ _), hcut]
  show recordFrom delimiter false [] (unquoted [] []) = _
  rw [recordFrom, dif_pos rfl]
  rfl

/-! ## 6. All records -/

/-- `next_record` gives the records, one call after the other, and then the end of the input. -/
def Yields (rows : CsvRows) : List (List Text) → Prop
  | [] => ∃ rest, rows.nextRecord = .ok (none, rest)
  | record :: records => ∃ rest, rows.nextRecord = .ok (some record, rest) ∧ Yields rest records

/-- The same of the text that is left to read. -/
def Readings (delimiter : Char) (firstLine : Bool) (text : Text) : List (List Text) → Prop
  | [] => ∃ left, recordFrom delimiter firstLine text .new = .ok (none, left)
  | record :: records => ∃ left,
      recordFrom delimiter firstLine text .new = .ok (some record, left) ∧
        Readings delimiter false left records

theorem ne_nil_of_record {firstLine : Bool}
    (h : recordFrom delimiter firstLine text .new = .ok (some record, left)) : text ≠ [] := by
  intro hnil
  rw [hnil, recordFrom_end] at h
  cases h

/-- **The buffers do not matter.** -/
theorem yields_iff : ∀ {records : List (List Text)} {rows : CsvRows} {text : Text},
    Holds rows text →
    (Yields rows records ↔ Readings rows.delimiter rows.firstLine text records)
  | [], rows, text, h => by
    have hsame := nextRecord_text h .new
    unfold Yields Readings CsvRows.nextRecord
    cases hrecord : recordFrom rows.delimiter rows.firstLine text .new with
    | error error =>
      rw [hrecord] at hsame
      have hran : rows.nextRecordLoop .new = .error error := hsame
      rw [hran]
      constructor
      · intro ⟨_, hok⟩
        cases hok
      · intro ⟨_, hok⟩
        cases hok
    | ok produced =>
      rw [hrecord] at hsame
      obtain ⟨rest, hran, _⟩ := hsame
      rw [hran]
      constructor
      · intro ⟨_, hok⟩
        obtain ⟨hnone, _⟩ := Prod.mk.inj (Except.ok.inj hok)
        exact ⟨produced.2, congrArg Except.ok (Prod.ext hnone rfl)⟩
      · intro ⟨_, hok⟩
        have hnone : produced.1 = none := congrArg Prod.fst (Except.ok.inj hok)
        exact ⟨rest, congrArg Except.ok (Prod.ext hnone rfl)⟩
  | record :: records, rows, text, h => by
    have hsame := nextRecord_text h .new
    unfold Yields Readings CsvRows.nextRecord
    cases hrecord : recordFrom rows.delimiter rows.firstLine text .new with
    | error error =>
      rw [hrecord] at hsame
      have hran : rows.nextRecordLoop .new = .error error := hsame
      rw [hran]
      constructor
      · intro ⟨_, hok, _⟩
        cases hok
      · intro ⟨_, hok, _⟩
        cases hok
    | ok produced =>
      obtain ⟨given, left⟩ := produced
      rw [hrecord] at hsame
      obtain ⟨rest, hran, hholds, hdelimiter, hmark⟩ := hsame
      rw [hran]
      constructor
      · intro ⟨_, hok, hrest⟩
        obtain ⟨rfl, rfl⟩ := Prod.mk.inj (Except.ok.inj hok)
        have hfirst := hmark (.inr (ne_nil_of_record hrecord))
        rw [yields_iff hholds, hdelimiter, hfirst] at hrest
        exact ⟨left, rfl, hrest⟩
      · intro ⟨_, hok, hrest⟩
        obtain ⟨rfl, rfl⟩ := Prod.mk.inj (Except.ok.inj hok)
        have hfirst := hmark (.inr (ne_nil_of_record hrecord))
        refine ⟨rest, rfl, ?_⟩
        rw [yields_iff hholds, hdelimiter, hfirst]
        exact hrest

/-! ## 7. How much text a record takes -/

/-- The characters that some fields are written in, with the terminator of each. -/
def writtenLength (delimiter : Char) (fields : List Text) : Nat :=
  (fields.map fun field => (fieldText delimiter field).length + 1).sum

/-- The characters that the field at hand has taken. -/
def CsvRecordState.pending (state : CsvRecordState) : Nat :=
  if state.inQuotes then 1 + (escapeQuotes state.field).length
  else if state.afterQuote then 2 + (escapeQuotes state.field).length
  else state.field.length

/-- A field without quotes has no character that needs them. -/
def Plain (delimiter : Char) (state : CsvRecordState) : Prop :=
  state.inQuotes = false → state.afterQuote = false → state.field.any (special delimiter) = false

def taken (delimiter : Char) (state : CsvRecordState) : Nat :=
  writtenLength delimiter state.fields + state.pending

theorem length_le_escapeQuotes : ∀ field : Text, field.length ≤ (escapeQuotes field).length
  | [] => Nat.le_refl _
  | c :: field => by
    have ih := length_le_escapeQuotes field
    unfold escapeQuotes at ih ⊢
    rw [List.flatMap_cons, List.length_append, List.length_cons]
    split
    · rw [List.length_cons, List.length_cons]
      omega
    · rw [List.length_cons]
      omega

theorem fieldText_le_pending (hplain : Plain delimiter state) (hquotes : state.inQuotes = false) :
    (fieldText delimiter state.field).length ≤ state.pending := by
  have hescape := length_le_escapeQuotes state.field
  unfold CsvRecordState.pending fieldText
  rw [hquotes, if_neg Bool.false_ne_true]
  cases hafter : state.afterQuote with
  | true =>
    rw [if_pos rfl]
    split
    · rw [List.length_cons, List.length_append, List.length_singleton]
      omega
    · omega
  | false => rw [hplain hquotes hafter, if_neg Bool.false_ne_true, if_neg Bool.false_ne_true]

theorem writtenLength_append (a b : List Text) :
    writtenLength delimiter (a ++ b) = writtenLength delimiter a + writtenLength delimiter b := by
  unfold writtenLength
  rw [List.map_append, List.sum_append]

variable (field : Text)

theorem writtenLength_single :
    writtenLength delimiter [field] = (fieldText delimiter field).length + 1 := rfl

theorem length_escapeQuotes_push (c : Char) :
    (escapeQuotes (field ++ [c])).length =
      (escapeQuotes field).length + if c = '"' then 2 else 1 := by
  unfold escapeQuotes
  rw [List.flatMap_append, List.length_append, List.flatMap_cons, List.flatMap_nil, List.append_nil]
  split <;> rfl

theorem finishField_cost (hplain : Plain delimiter state) (hquotes : state.inQuotes = false) :
    writtenLength delimiter (state.fields ++ [state.field]) ≤ taken delimiter state + 1 := by
  have hfield := fieldText_le_pending hplain hquotes
  rw [writtenLength_append, writtenLength_single]
  unfold taken
  omega

theorem Consumes.cost (h : Consumes delimiter c peek state next took)
    (hplain : Plain delimiter state) :
    taken delimiter next ≤ taken delimiter state + 1 + (if took then 1 else 0) ∧
      Plain delimiter next := by
  cases h with
  | quote hquotes _ =>
    have hnow : state.pending = 1 + (escapeQuotes state.field).length := if_pos hquotes
    have hnext : (state.pushCharacter '"').pending =
        1 + (escapeQuotes (state.field ++ ['"'])).length := if_pos hquotes
    rw [length_escapeQuotes_push, if_pos rfl] at hnext
    refine ⟨?_, fun hopen => absurd (hquotes.symm.trans hopen) (by decide)⟩
    show writtenLength delimiter state.fields + _ ≤ writtenLength delimiter state.fields + _ + 1 + 1
    omega
  | letter hquotes hletter =>
    have hnow : state.pending = 1 + (escapeQuotes state.field).length := if_pos hquotes
    have hnext : (state.pushCharacter c).pending =
        1 + (escapeQuotes (state.field ++ [c])).length := if_pos hquotes
    rw [length_escapeQuotes_push, if_neg hletter] at hnext
    refine ⟨?_, fun hopen => absurd (hquotes.symm.trans hopen) (by decide)⟩
    show writtenLength delimiter state.fields + _ ≤ writtenLength delimiter state.fields + _ + 1 + 0
    omega
  | close hquotes =>
    have hnow : state.pending = 1 + (escapeQuotes state.field).length := if_pos hquotes
    refine ⟨?_, fun _ hafter => by cases hafter⟩
    show writtenLength delimiter state.fields + (2 + (escapeQuotes state.field).length) ≤
      writtenLength delimiter state.fields + _ + 1 + 0
    omega
  | field hquotes =>
    have hnext : CsvRecordState.pending { state.finishField with afterQuote := false } = 0 := by
      unfold CsvRecordState.pending CsvRecordState.finishField
      rw [if_neg (by rw [hquotes]; exact Bool.false_ne_true), if_neg Bool.false_ne_true]
      rfl
    refine ⟨?_, fun _ _ => rfl⟩
    show writtenLength delimiter (state.fields ++ [state.field]) + _ ≤ taken delimiter state + 1 + 0
    rw [hnext]
    exact finishField_cost hplain hquotes
  | record took hquotes _ =>
    have hnext : CsvRecordState.pending
        { state.finishField with afterQuote := false, complete := true } = 0 := by
      unfold CsvRecordState.pending CsvRecordState.finishField
      rw [if_neg (by rw [hquotes]; exact Bool.false_ne_true), if_neg Bool.false_ne_true]
      rfl
    refine ⟨?_, fun _ _ => rfl⟩
    show writtenLength delimiter (state.fields ++ [state.field]) + _ ≤ taken delimiter state + 1 + _
    rw [hnext]
    exact Nat.le_trans (finishField_cost hplain hquotes) (Nat.le_add_right _ _)
  | opens hquotes hafter hfield =>
    refine ⟨?_, fun hopen _ => by cases hopen⟩
    show writtenLength delimiter state.fields + (1 + (escapeQuotes state.field).length) ≤
      writtenLength delimiter state.fields + _ + 1 + 0
    rw [hfield]
    show _ + (1 + 0) ≤ _
    omega
  | plain hquotes hafter hletter =>
    have hpending : ∀ field : Text, CsvRecordState.pending { state with field := field } =
        field.length := by
      intro field
      unfold CsvRecordState.pending
      rw [if_neg (by rw [hquotes]; exact Bool.false_ne_true),
        if_neg (by rw [hafter]; exact Bool.false_ne_true)]
    have hnow := hpending state.field
    have hnext := hpending (state.field ++ [c])
    rw [List.length_append, List.length_singleton] at hnext
    refine ⟨?_, fun _ _ => ?_⟩
    · show writtenLength delimiter state.fields + CsvRecordState.pending _ ≤
        writtenLength delimiter state.fields + CsvRecordState.pending _ + 1 + 0
      unfold CsvRecordState.pushCharacter
      rw [hnext, hnow]
      omega
    · show (state.field ++ [c]).any (special delimiter) = false
      rw [List.any_append, hplain hquotes hafter, Bool.false_or, List.any_cons, hletter]
      rfl

theorem consumeChars_cost : ∀ {text left : Text} {state next : CsvRecordState},
    consumeChars delimiter text state = .ok (next, left) → Plain delimiter state →
    taken delimiter next + left.length ≤ taken delimiter state + text.length ∧ Plain delimiter next
  | [], left, state, next, h, hplain => by
    obtain ⟨rfl, rfl⟩ := Prod.mk.inj (Except.ok.inj h)
    exact ⟨Nat.le_refl _, hplain⟩
  | c :: text, left, state, next, h, hplain => by
    rw [consumeChars_cons] at h
    cases hstep : consumeCharacter delimiter c text.head? state with
    | error error =>
      rw [hstep] at h
      cases h
    | ok produced =>
      obtain ⟨middle, took⟩ := produced
      have hconsumes := consumes_of_ok hstep
      obtain ⟨hcost, hmiddle⟩ := hconsumes.cost hplain
      -- a character that is taken along is there
      have hlength : (if took then text.tail else text).length + (if took then 1 else 0) ≤
          text.length := by
        cases took with
        | false => exact Nat.le_refl _
        | true =>
          cases text with
          | nil =>
            cases hconsumes with
            | quote _ hpeek => cases hpeek
            | record _ _ hpeek => cases hpeek rfl
          | cons first rest => exact Nat.le_refl _
      rw [hstep] at h
      dsimp only at h
      rw [List.length_cons]
      cases hcomplete : middle.complete with
      | true =>
        rw [hcomplete, if_pos rfl] at h
        obtain ⟨rfl, rfl⟩ := Prod.mk.inj (Except.ok.inj h)
        exact ⟨by omega, hmiddle⟩
      | false =>
        rw [hcomplete, if_neg Bool.false_ne_true] at h
        obtain ⟨hlater, hnext⟩ := consumeChars_cost h hmiddle
        exact ⟨by omega, hnext⟩
termination_by text => text.length

/-- A record is not written in more than was read for it, but for its terminator. -/
theorem recordFrom_cost {state : CsvRecordState}
    (h : recordFrom delimiter false text state = .ok (some record, left))
    (hplain : Plain delimiter state) :
    writtenLength delimiter record + left.length ≤ taken delimiter state + text.length ∨
      left = [] ∧ writtenLength delimiter record ≤ taken delimiter state + text.length + 1 := by
  induction hsize : text.length using Nat.strongRecOn generalizing text state with
  | _ size ih =>
    rw [recordFrom] at h
    by_cases hempty : text = []
    · rw [dif_pos hempty] at h
      unfold CsvRecordState.finishEof at h
      cases hquotes : state.inQuotes with
      | true =>
        rw [hquotes, if_pos rfl] at h
        cases h
      | false =>
        rw [hquotes, if_neg Bool.false_ne_true] at h
        have hfinish := finishField_cost hplain hquotes
        split at h
        · rename_i hend
          split at hend
          · cases hend
          · cases hend
        · rename_i given hend
          split at hend
          · obtain rfl := Except.ok.inj hend
            obtain ⟨hnone, _⟩ := Prod.mk.inj (Except.ok.inj h)
            cases hnone
          · obtain rfl := Except.ok.inj hend
            obtain ⟨hsome, rfl⟩ := Prod.mk.inj (Except.ok.inj h)
            obtain rfl := Option.some.inj hsome
            refine .inr ⟨rfl, Nat.le_trans hfinish ?_⟩
            omega
    · have hlines := congrArg List.length (cutLine_append '\n' text)
      rw [List.length_append] at hlines
      have hmark : CsvRows.stripMark false (cutLine '\n' text).1 = (cutLine '\n' text).1 := rfl
      rw [dif_neg hempty] at h
      unfold consumeLine at h
      rw [hmark] at h
      cases hconsume : consumeChars delimiter (cutLine '\n' text).1
          { state with sawInput := true } with
      | error error =>
        rw [hconsume] at h
        cases h
      | ok produced =>
        obtain ⟨middle, dropped⟩ := produced
        obtain ⟨hcost, hmiddle⟩ := consumeChars_cost hconsume hplain
        have hsame : taken delimiter { state with sawInput := true } = taken delimiter state := rfl
        rw [hconsume] at h
        dsimp only at h
        cases hcomplete : middle.complete with
        | true =>
          rw [hcomplete, if_pos rfl] at h
          obtain ⟨hsome, rfl⟩ := Prod.mk.inj (Except.ok.inj h)
          obtain rfl := Option.some.inj hsome
          have htaken : writtenLength delimiter middle.fields ≤ taken delimiter middle :=
            Nat.le_add_right _ _
          exact .inl (by omega)
        | false =>
          rw [hcomplete, if_neg Bool.false_ne_true] at h
          have hshort : (cutLine '\n' text).2.length < size := hsize ▸ cutLine_shorter hempty
          obtain hlater | ⟨hleft, hlater⟩ := ih _ hshort h hmiddle rfl
          · exact .inl (by omega)
          · exact .inr ⟨hleft, by omega⟩

/-- **Records are written in the shortest way**, but for the last terminator. -/
theorem readings_cost : ∀ {records : List (List Text)} {text : Text},
    Readings delimiter false text records →
    (records.map (writtenLength delimiter)).sum ≤ text.length + 1
  | [], _, _ => Nat.zero_le _
  | record :: records, text, ⟨left, hrecord, hrest⟩ => by
    have hne := ne_nil_of_record hrecord
    rw [recordFrom_new false hne] at hrecord
    have hnone : taken delimiter (unquoted [] []) = 0 := rfl
    have ih := readings_cost hrest
    rw [List.map_cons, List.sum_cons]
    obtain hcost | ⟨hleft, hcost⟩ := recordFrom_cost hrecord fun _ _ => rfl
    · omega
    · subst hleft
      -- nothing is left for another record
      cases records with
      | nil => exact hcost.trans (by rw [hnone]; omega)
      | cons second records =>
        obtain ⟨_, hsecond, _⟩ := hrest
        exact absurd rfl (ne_nil_of_record hsecond)

/-! ## 8. Which records come back -/

theorem length_recordText : ∀ {record : List Text}, record ≠ [] →
    (recordText delimiter record).length + 1 = writtenLength delimiter record
  | [], h => absurd rfl h
  | [field], _ => (writtenLength_single field).symm
  | field :: second :: record, _ => by
    have ih := length_recordText (List.cons_ne_nil second record)
    have hrecord : recordText delimiter (field :: second :: record) =
        fieldText delimiter field ++ delimiter :: recordText delimiter (second :: record) := rfl
    have hwritten : writtenLength delimiter (field :: second :: record) =
        (fieldText delimiter field).length + 1 + writtenLength delimiter (second :: record) := by
      unfold writtenLength
      rw [List.map_cons, List.sum_cons]
    rw [hrecord, List.length_append, List.length_cons]
    omega

variable (ending : RecordEnd)

theorem head_recordText (fields : List Text) (rest : Text) :
    (recordText delimiter (field :: fields) ++ (ending.text ++ rest)).head? =
      if field.any (special delimiter) then some '"'
      else match field, fields with
        | c :: _, _ => some c
        | [], [] => ending.text.head?
        | [], _ :: _ => some delimiter := by
  have hending : (ending.text ++ rest).head? = ending.text.head? := by cases ending <;> rfl
  cases hspecial : field.any (special delimiter) with
  | true =>
    have hfield : fieldText delimiter field = '"' :: (escapeQuotes field ++ ['"']) := by
      unfold fieldText
      rw [hspecial, if_pos rfl]
    cases fields with
    | nil =>
      rw [recordText, hfield]
      rfl
    | cons second fields =>
      have hrecord : recordText delimiter (field :: second :: fields) =
        fieldText delimiter field ++ delimiter :: recordText delimiter (second :: fields) := rfl
      rw [hrecord, hfield]
      rfl
  | false =>
    have hfield : fieldText delimiter field = field := by
      unfold fieldText
      rw [hspecial, if_neg Bool.false_ne_true]
    cases fields with
    | nil =>
      rw [recordText, hfield]
      cases field with
      | nil => exact hending
      | cons c field => rfl
    | cons second fields =>
      have hrecord : recordText delimiter (field :: second :: fields) =
        fieldText delimiter field ++ delimiter :: recordText delimiter (second :: fields) := rfl
      rw [hrecord, hfield]
      cases field with
      | nil => rfl
      | cons c field => rfl

theorem recordsText_cons (record : List Text) (records : List (List Text)) :
    recordsText delimiter ending (record :: records) =
      recordText delimiter record ++ (ending.text ++ recordsText delimiter ending records) := by
  unfold recordsText
  rw [List.flatMap_cons, List.append_assoc]

/-- Records that can be written: none without fields, no field that reads otherwise than it is. -/
def Writable (records : List (List Text)) : Prop :=
  ∀ record ∈ records, record ≠ [] ∧ ∀ field ∈ record, Unescaped field

instance (records : List (List Text)) : Decidable (Writable records) :=
  inferInstanceAs (Decidable (∀ record ∈ records, record ≠ [] ∧ ∀ field ∈ record, Unescaped field))

theorem recordsText_ne_nil (delimiter : Char) (ending : RecordEnd) (record : List Text)
    (records : List (List Text)) : recordsText delimiter ending (record :: records) ≠ [] := by
  rw [recordsText_cons]
  intro hnil
  have hempty := (List.append_eq_nil_iff.mp (List.append_eq_nil_iff.mp hnil).2).1
  cases ending <;> cases hempty

theorem head_recordsText_cr (hd : Separates delimiter) (h : Writable records) :
    (recordsText delimiter .cr records).head? ≠ some '\n' := by
  cases records with
  | nil => exact fun hhead => by cases hhead
  | cons record records =>
    cases record with
    | nil => exact absurd rfl (h [] (.head _)).1
    | cons field fields =>
      rw [recordsText_cons, head_recordText]
      cases hspecial : field.any (special delimiter) with
      | true => exact fun hhead => absurd (Option.some.inj hhead) (by decide)
      | false =>
        cases field with
        | cons c field =>
          intro hhead
          obtain rfl := Option.some.inj hhead
          rw [List.any_cons, Bool.or_eq_false_iff] at hspecial
          have hlf : special delimiter '\n' = true := by
            unfold special
            simp
          rw [hlf] at hspecial
          cases hspecial.1
        | nil =>
          cases fields with
          | nil => exact fun hhead => absurd (Option.some.inj hhead) (by decide)
          | cons second fields => exact fun hhead => hd.lf (Option.some.inj hhead)

theorem readings_written (hd : Separates delimiter) (ending : RecordEnd) :
    ∀ {records : List (List Text)}, Writable records → (ending = .cr → records.length ≤ 1) →
    Readings delimiter false (recordsText delimiter ending records) records
  | [], _, _ => ⟨[], recordFrom_end false⟩
  | record :: records, h, hone => by
    obtain ⟨hne, hfields⟩ := h record (.head _)
    have hothers : Writable records := fun r hr => h r (.tail _ hr)
    have hlast : ending = .cr → records = [] := fun hcr => by
      have hlength := hone hcr
      rw [List.length_cons] at hlength
      exact List.length_eq_zero_iff.mp (by omega)
    have hrest : ending = .cr → (recordsText delimiter ending records).head? ≠ some '\n' :=
      fun hcr => by
        rw [hlast hcr]
        exact fun hhead => by cases hhead
    have hrecord := recordFrom_record hd ending hrest hne hfields
    have ih := readings_written hd ending hothers fun hcr => by
      rw [hlast hcr]
      exact Nat.zero_le 1
    rw [← recordsText_cons] at hrecord
    refine ⟨_, (recordFrom_new false (recordsText_ne_nil _ _ _ _)).trans hrecord, ?_⟩
    by_cases hcr : ending = .cr
    · rw [if_pos hcr, hlast hcr]
      exact ⟨[], recordFrom_end false⟩
    · rw [if_neg hcr]
      exact ih

theorem length_recordsText_cr : ∀ {records : List (List Text)}, Writable records →
    (recordsText delimiter .cr records).length = (records.map (writtenLength delimiter)).sum
  | [], _ => rfl
  | record :: records, h => by
    have hothers : Writable records := fun r hr => h r (.tail _ hr)
    have ih := length_recordsText_cr hothers
    have hrecord : (recordText delimiter record).length + 1 = _ :=
      length_recordText (h record (.head _)).1
    have hcr : RecordEnd.cr.text.length = 1 := rfl
    rw [recordsText_cons, List.length_append, List.length_append, List.map_cons, List.sum_cons]
    omega

/-- **Of records that end with a bare CR only the first is read.** -/
theorem readings_cr (hd : Separates delimiter) {second : List Text}
    (h : Writable (record :: second :: records)) :
    ¬ Readings delimiter false (recordsText delimiter .cr (record :: second :: records))
      (record :: second :: records) := by
  intro ⟨left, hfirst, hothers⟩
  obtain ⟨hne, hfields⟩ := h record (.head _)
  have hrest : Writable (second :: records) := fun r hr => h r (.tail _ hr)
  have hhead := head_recordsText_cr hd hrest
  have hrecord := recordFrom_record hd .cr (fun _ => hhead) hne hfields
  rw [← recordsText_cons, ← recordFrom_new false (recordsText_ne_nil _ _ _ _), hfirst,
    if_pos rfl] at hrecord
  have hleft : left = (cutLine '\n' (recordsText delimiter .cr (second :: records))).2 :=
    congrArg Prod.snd (Except.ok.inj hrecord)
  have hcost := readings_cost hothers
  rw [← length_recordsText_cr hrest] at hcost
  have hlines := congrArg List.length
    (cutLine_append '\n' (recordsText delimiter .cr (second :: records)))
  rw [List.length_append, ← hleft] at hlines
  obtain hnone | htwo := cutLine_long hhead
  · obtain ⟨_, hsecond, _⟩ := hothers
    exact ne_nil_of_record hsecond (hleft.trans hnone)
  · omega

/-- The records as CSV, with or without a byte order mark in front. -/
def csvText (delimiter : Char) (ending : RecordEnd) (marked : Bool) (records : List (List Text)) :
    Text :=
  (if marked then ['\uFEFF'] else []) ++ recordsText delimiter ending records

/-- The records that come back: records that end with a bare CR must be one at most; behind a byte
    order mark there must be a record; and without one the text must not begin with a field
    terminator that is taken for it. -/
def ComesBack (delimiter : Char) (ending : RecordEnd) (marked : Bool) (records : List (List Text)) :
    Prop :=
  (ending = .cr → records.length ≤ 1) ∧ (marked = true → records ≠ []) ∧
    ¬ (marked = false ∧ delimiter = '\uFEFF' ∧
      ∃ second fields, records.head? = some ([] :: second :: fields))

theorem readings_cons_iff {firstLine firstLine' : Bool} {text' : Text}
    (h : recordFrom delimiter firstLine text .new = recordFrom delimiter firstLine' text' .new) :
    Readings delimiter firstLine text (record :: records) ↔
      Readings delimiter firstLine' text' (record :: records) := by
  unfold Readings
  rw [h]

theorem readings_iff (hd : Separates delimiter) (ending : RecordEnd) (h : Writable records) :
    Readings delimiter false (recordsText delimiter ending records) records ↔
      (ending = .cr → records.length ≤ 1) := by
  refine ⟨fun hread hcr => ?_, readings_written hd ending h⟩
  subst hcr
  cases records with
  | nil => exact Nat.zero_le 1
  | cons record records =>
    cases records with
    | nil => exact Nat.le_refl 1
    | cons second records => exact absurd hread (readings_cr hd h)

theorem head_mark (hne : record ≠ [])
    (hfirst : ∀ field ∈ record.head?, field.head? ≠ some '\uFEFF') :
    (recordsText delimiter ending (record :: records)).head? = some '\uFEFF' ↔
      delimiter = '\uFEFF' ∧ ∃ second fields, record = [] :: second :: fields := by
  cases record with
  | nil => exact absurd rfl hne
  | cons field fields =>
    rw [recordsText_cons, head_recordText]
    cases hspecial : field.any (special delimiter) with
    | true =>
      refine iff_of_false (fun hhead => absurd (Option.some.inj hhead) (by decide)) ?_
      intro ⟨_, _, _, hrecord⟩
      rw [(List.cons.inj hrecord).1] at hspecial
      cases hspecial
    | false =>
      cases field with
      | cons c field =>
        refine iff_of_false (hfirst (c :: field) rfl) ?_
        intro ⟨_, _, _, hrecord⟩
        cases (List.cons.inj hrecord).1
      | nil =>
        cases fields with
        | nil =>
          refine iff_of_false (fun hhead => ?_) ?_
          · cases ending <;> exact absurd (Option.some.inj hhead) (by decide)
          · intro ⟨_, _, _, hrecord⟩
            cases (List.cons.inj hrecord).2
        | cons second fields =>
          constructor
          · intro hhead
            exact ⟨Option.some.inj hhead, second, fields, rfl⟩
          · intro ⟨hdelimiter, _⟩
            exact congrArg some hdelimiter

theorem readings_marked (hd : Separates delimiter) (ending : RecordEnd) (h : Writable records) :
    Readings delimiter true ('\uFEFF' :: recordsText delimiter ending records) records ↔
      (ending = .cr → records.length ≤ 1) ∧ records ≠ [] := by
  cases records with
  | nil =>
    refine iff_of_false (fun hread => ?_) fun hcond => hcond.2 rfl
    obtain ⟨_, hnone⟩ := hread
    have hmark : recordFrom delimiter true ['\uFEFF'] .new = _ := recordFrom_mark
    cases hmark.symm.trans hnone
  | cons record records =>
    have hsame : recordFrom delimiter true _ .new = _ :=
      recordFrom_marked (recordsText_ne_nil delimiter ending record records) .new
    rw [readings_cons_iff hsame, readings_iff hd ending h]
    exact ⟨fun hone => ⟨hone, List.cons_ne_nil _ _⟩, fun hcond => hcond.1⟩

theorem readings_mistaken (hd : Separates '\uFEFF') (ending : RecordEnd) {second : Text}
    {fields : List Text} (h : Writable (([] :: second :: fields) :: records)) :
    ¬ Readings '\uFEFF' true
      (recordsText '\uFEFF' ending (([] :: second :: fields) :: records))
      (([] :: second :: fields) :: records) := by
  intro ⟨left, hfirst, _⟩
  have hothers : Writable records := fun r hr => h r (.tail _ hr)
  have hrest : ending = .cr → (recordsText '\uFEFF' ending records).head? ≠ some '\n' := by
    intro hcr
    subst hcr
    exact head_recordsText_cr hd hothers
  have hfields := (h _ (.head _)).2
  have hrecord := recordFrom_record hd ending hrest (List.cons_ne_nil second fields)
    fun f hf => hfields f (.tail _ hf)
  have htext : recordsText '\uFEFF' ending (([] :: second :: fields) :: records) =
      '\uFEFF' :: (recordText '\uFEFF' (second :: fields) ++
        (ending.text ++ recordsText '\uFEFF' ending records)) := by
    rw [recordsText_cons]
    rfl
  have hne : recordText '\uFEFF' (second :: fields) ++
      (ending.text ++ recordsText '\uFEFF' ending records) ≠ [] := by
    rw [← recordsText_cons]
    exact recordsText_ne_nil _ _ _ _
  rw [htext, recordFrom_marked hne, recordFrom_new false hne, hrecord] at hfirst
  have hsame := congrArg (fun r => (r.1.getD []).length) (Except.ok.inj hfirst)
  simp only [Option.getD_some, List.length_cons] at hsame
  omega

/-- **Exactly which written records come back**, whatever the buffers. -/
theorem csv_comes_back (delimiter : Char) (hd : Separates delimiter) (ending : RecordEnd)
    (marked : Bool) (records : List (List Text)) (h : Writable records)
    (hmark : marked = false → ∀ record ∈ records.head?, ∀ field ∈ record.head?,
      field.head? ≠ some '\uFEFF')
    (reader : List Bytes) (hreader : ∀ bytes ∈ reader, bytes ≠ [])
    (hbytes : reader.flatten = encode (csvText delimiter ending marked records)) :
    Yields (CsvRows.new reader delimiter) records ↔ ComesBack delimiter ending marked records := by
  have hholds : Holds (CsvRows.new reader delimiter) (csvText delimiter ending marked records) :=
    ⟨hreader, hbytes⟩
  rw [yields_iff hholds]
  show Readings delimiter true _ _ ↔ _
  unfold ComesBack
  cases marked with
  | true =>
    refine (readings_marked hd ending h).trans ?_
    constructor
    · intro ⟨hone, hne⟩
      exact ⟨hone, fun _ => hne, fun hmistaken => Bool.true_eq_false.mp hmistaken.1⟩
    · intro ⟨hone, hne, _⟩
      exact ⟨hone, hne rfl⟩
  | false =>
    have htext : csvText delimiter ending false records =
        recordsText delimiter ending records := rfl
    rw [htext]
    cases records with
    | nil =>
      refine iff_of_true ⟨[], recordFrom_end true⟩
        ⟨fun _ => Nat.zero_le 1, fun hmarked => Bool.false_ne_true.elim hmarked, ?_⟩
      intro ⟨_, _, _, _, hnone⟩
      cases hnone
    | cons record records =>
      have hhead : (recordsText delimiter ending (record :: records)).head? = _ ↔ _ :=
        head_mark ending (h record (.head _)).1 (hmark rfl record rfl)
      by_cases hmistaken : delimiter = '\uFEFF' ∧ ∃ second fields, record = [] :: second :: fields
      · obtain ⟨rfl, second, fields, rfl⟩ := hmistaken
        refine iff_of_false (readings_mistaken hd ending h) fun hcond => ?_
        exact hcond.2.2 ⟨rfl, rfl, second, fields, rfl⟩
      · have hsame : recordFrom delimiter true _ .new = _ :=
          recordFrom_unmarked (fun hfirst => hmistaken (hhead.mp hfirst)) .new
        rw [readings_cons_iff hsame, readings_iff hd ending h]
        constructor
        · intro hone
          refine ⟨hone, fun hmarked => Bool.false_ne_true.elim hmarked, ?_⟩
          intro ⟨_, hdelimiter, second, fields, hfirst⟩
          exact hmistaken ⟨hdelimiter, second, fields, Option.some.inj hfirst⟩
        · exact fun hcond => hcond.1

/-- Two records that end with LF, a field of the first in quotes, read from two buffers. -/
theorem csv_comes_back_lines :
    Yields (CsvRows.new [encode ['a', ',', '"'], encode ['b', ',', '"', '\n', 'c', '\n']] ',')
      [[['a'], ['b', ',']], [['c']]] := by
  have hfirst : ∀ record ∈ [[['a'], ['b', ',']], [['c']]].head?, ∀ field ∈ record.head?,
      field.head? ≠ some '\uFEFF' := by decide
  refine (csv_comes_back ',' ⟨by decide, by decide, by decide⟩ .lf false
    [[['a'], ['b', ',']], [['c']]] (by decide) (fun _ => hfirst)
    [encode ['a', ',', '"'], encode ['b', ',', '"', '\n', 'c', '\n']] (by decide)
    (by decide)).mpr ?_
  exact ⟨by decide, by decide, fun hmistaken => absurd hmistaken.2.1 (by decide)⟩

/-- **The second of two records that end with CR is lost.** -/
theorem csv_cr_lost :
    ¬ Yields (CsvRows.new [encode ['a', '\r', 'b', '\r']] ',') [[['a']], [['b']]] := by
  have hholds : Holds (CsvRows.new [encode ['a', '\r', 'b', '\r']] ',')
      (recordsText ',' .cr [[['a']], [['b']]]) := ⟨by decide, by decide⟩
  have hsame : recordFrom ',' true (recordsText ',' .cr [[['a']], [['b']]]) .new = _ :=
    recordFrom_unmarked (by decide) .new
  rw [yields_iff hholds]
  show ¬ Readings ',' true _ _
  rw [readings_cons_iff hsame]
  exact readings_cr ⟨by decide, by decide, by decide⟩ (by decide)

end Lithograph.Query.Ingestion
