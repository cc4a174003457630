/-
  File:      Lithograph/Query/Expression/Interpolation.lean
  Subject:   Interpolated strings are split where they were written
             (`cypher/semantic_interpolation.rs`, `query/expression.rs`).

  The scanner has no grammar at hand: it knows quotes, quoted names, comments and the depth of the
  braces. `Lexical` says what the texts of expressions look like.

  * **`interpolated_comes_back`**: the parts are those that were written, where no line comment goes
    on for the scanner.
-/
import Lithograph.Query.Expression.Operators

namespace Lithograph.Query.Expression

open Library

/-! ## 1. The scanner -/

inductive LexState where
  | normal | singleQuoted | backtick | lineComment | blockComment
  deriving DecidableEq, Repr

/-- `InterpolationFragment`. Offsets count characters here and bytes in the source; the bytes that
are told apart are ASCII. -/
structure InterpolationFragment where
  text : Text
  offset : Nat
  stop : Nat
  deriving DecidableEq, Repr

/-- What the loop of `interpolation_fragments` carries. -/
structure Scan where
  index : Nat := 0
  start : Option Nat := none
  depth : Nat := 0
  state : LexState := .normal
  output : List InterpolationFragment := []

def isWhitespace (c : Char) : Bool :=
  (9 ≤ c.toNat && c.toNat ≤ 13) || (0x2000 ≤ c.toNat && c.toNat ≤ 0x200A) ||
    [0x20, 0x85, 0xA0, 0x1680, 0x2028, 0x2029, 0x202F, 0x205F, 0x3000].contains c.toNat

def trimStart (text : Text) : Text := text.dropWhile isWhitespace

def trim (text : Text) : Text := (trimStart text).rdropWhile isWhitespace

def interpolationBody (text : Text) : Except String Text :=
  let body := match text with
    | 's' :: body => body
    | 'S' :: body => body
    | body => body
  match body with
  | '"' :: value =>
    if value.getLast? = some '"' then .ok value.dropLast
    else .error "string interpolation must use s\"...\" form"
  | _ => .error "string interpolation must use s\"...\" form"

def scanOuterText (c : Char) (s : Scan) : Except String Scan :=
  match c with
  | '\\' => .ok { s with index := s.index + 2 }
  | '{' => .ok { s with start := some (s.index + 1), depth := 1, index := s.index + 1 }
  | '}' => .error "string interpolation contains an unmatched '\x7d'"
  | _ => .ok { s with index := s.index + 1 }

def scanQuotedOrComment (c : Char) (next : Option Char) (s : Scan) : Scan :=
  match s.state with
  | .singleQuoted =>
    if c = '\\' then { s with index := s.index + 2 }
    else if c = '\'' ∧ next = some '\'' then { s with index := s.index + 2 }
    else if c = '\'' then { s with state := .normal, index := s.index + 1 }
    else { s with index := s.index + 1 }
  | .backtick =>
    if c = '`' ∧ next = some '`' then { s with index := s.index + 2 }
    else if c = '`' then { s with state := .normal, index := s.index + 1 }
    else { s with index := s.index + 1 }
  | .lineComment =>
    if c = '\n' then { s with state := .normal, index := s.index + 1 }
    else { s with index := s.index + 1 }
  | .blockComment =>
    if c = '*' ∧ next = some '/' then { s with state := .normal, index := s.index + 2 }
    else { s with index := s.index + 1 }
  | .normal => { s with index := s.index + 1 }

def pushFragment (body : Text) (bodyOffset : Nat) (start : Option Nat) (stop : Nat)
    (output : List InterpolationFragment) : Except String (List InterpolationFragment) :=
  let start := start.getD stop
  let raw := (body.take stop).drop start
  let fragment := trim raw
  let leading := raw.length - (trimStart raw).length
  if fragment.isEmpty then .error "string interpolation expression must not be empty"
  else .ok (output ++ [⟨fragment, bodyOffset + start + leading, bodyOffset + stop⟩])

/-- A round of the loop in the text of an expression. -/
def scanExpression (body : Text) (bodyOffset : Nat) (c : Char) (next : Option Char) (s : Scan) :
    Except String Scan :=
  match c, next with
  | '\'', _ => .ok { s with state := .singleQuoted, index := s.index + 1 }
  | '`', _ => .ok { s with state := .backtick, index := s.index + 1 }
  | '/', some '/' => .ok { s with state := .lineComment, index := s.index + 2 }
  | '/', some '*' => .ok { s with state := .blockComment, index := s.index + 2 }
  | '{', _ => .ok { s with depth := s.depth + 1, index := s.index + 1 }
  | '}', _ =>
    if s.depth = 1 then do
      let output ← pushFragment body bodyOffset s.start s.index s.output
      return { s with depth := 0, start := none, output, index := s.index + 1 }
    else .ok { s with depth := s.depth - 1, index := s.index + 1 }
  | _, _ => .ok { s with index := s.index + 1 }

/-- A round of the loop. -/
def scanRound (body : Text) (bodyOffset : Nat) (c : Char) (next : Option Char) (s : Scan) :
    Except String Scan :=
  if s.depth = 0 then scanOuterText c s
  else if s.state ≠ .normal then .ok (scanQuotedOrComment c next s)
  else scanExpression body bodyOffset c next s

/-- The loop of `interpolation_fragments` on what stands at the index and behind it. -/
def scanFragments (body : Text) (bodyOffset : Nat) : Text → Scan → Except String Scan
  | [], s => .ok s
  | c :: rest, s => do
    let s' ← scanRound body bodyOffset c rest.head? s
    scanFragments body bodyOffset (rest.drop (s'.index - s.index - 1)) s'
  termination_by rest => rest.length

def interpolationFragments (text : Text) : Except String (List InterpolationFragment) := do
  let body ← interpolationBody text
  let scan ← scanFragments body (text.length - body.length - 1) body {}
  if scan.depth ≠ 0 then .error "string interpolation contains an unclosed '\x7b'"
  else return scan.output

/-- The part of a text behind the opening quote that the rule `interpolated_string` takes, and the
rest. -/
def takeInterpolated : Text → Option (Text × Text)
  | '\\' :: c :: rest => (takeInterpolated rest).map fun taken => ('\\' :: c :: taken.1, taken.2)
  | '"' :: rest => some (['"'], rest)
  | c :: rest => (takeInterpolated rest).map fun taken => (c :: taken.1, taken.2)
  | [] => none

/-! ## 2. Compiling -/

inductive InterpolatedPart (E : Type) where
  | text (text : Text)
  | expression (expression : E)
  deriving DecidableEq, Repr

variable {E : Type}

/-- The text between two positions, if there is one, as `unescape_interpolation_text` reads it. -/
def textPart (raw : Text) (cursor stop : Nat) : QueryResult (List (InterpolatedPart E)) :=
  if cursor < stop then do
    let text ← parseString ('"' :: ((raw.take stop).drop cursor ++ ['"']))
    return [.text text]
  else .ok []

/-- The loop of `compile_interpolated`. -/
def compileFragments (compile : Text → QueryResult E) (raw : Text) :
    List InterpolationFragment → Nat → QueryResult (List (InterpolatedPart E))
  | [], cursor => textPart raw cursor (raw.length - 1)
  | fragment :: fragments, cursor =>
    match rsplitOnce '{' (raw.take fragment.offset) with
    | none => .error ⟨.semantic, "interpolation fragment is missing '\x7b'"⟩
    | some (front, _) => do
      let text ← textPart raw cursor front.length
      let expression ← compile fragment.text
      let parts ← compileFragments compile raw fragments (fragment.stop + 1)
      return text ++ .expression expression :: parts

/-- `compile_interpolated`. `compile` parses the text of an expression and compiles it. -/
def compileInterpolated (compile : Text → QueryResult E) (raw : Text) :
    QueryResult (List (InterpolatedPart E)) := do
  let fragments ← (interpolationFragments raw).mapError fun message => ⟨.semantic, message⟩
  compileFragments compile raw fragments 2

/-! ## 3. The texts of expressions -/

/-- The quotes of strings and of names: in a string, a backslash escapes what follows it. -/
inductive QuoteState : LexState → Char → Prop → Prop
  | string : QuoteState .singleQuoted '\'' True
  | name : QuoteState .backtick '`' False

/-- What stands in quotes: a quote is doubled or, in a string, escaped. -/
inductive Quoted (quote : Char) (escapes : Prop) : Text → Prop
  | nil : Quoted quote escapes []
  | escaped {c : Char} {text : Text} : escapes → Quoted quote escapes text →
      Quoted quote escapes ('\\' :: c :: text)
  | doubled {text : Text} : Quoted quote escapes text →
      Quoted quote escapes (quote :: quote :: text)
  | plain {c : Char} {text : Text} : c ≠ quote → (escapes → c ≠ '\\') →
      Quoted quote escapes text → Quoted quote escapes (c :: text)

/-- The text of a line comment, with one of these newlines behind it. -/
def LineOf (newlines : List Text) (comment : Text) : Prop :=
  ∃ text, ∃ newline ∈ newlines, comment = text ++ newline ∧ ∀ c ∈ text, c ∉ ['\n', '\r']

/-- The rule `NEWLINE` of the grammar. -/
def newlines : List Text := [['\n'], ['\r', '\n'], ['\r']]

/-- A line comment as the scanner reads it: it goes on behind a carriage return. -/
def ScannedLine (comment : Text) : Prop := ∃ text, comment = text ++ ['\n'] ∧ '\n' ∉ text

/-- What the text of an expression is made of but for braces, and what comes next; `line` says what
    a line comment is. -/
inductive Token (line : Text → Prop) : Text → Option Char → Prop
  | plain {c : Char} {next : Option Char} : c ∉ ['\'', '`', '/', '{', '}'] → Token line [c] next
  | slash {next : Option Char} : next ≠ some '/' → next ≠ some '*' → Token line ['/'] next
  | quoted {state : LexState} {quote : Char} {escapes : Prop} {text : Text} {next : Option Char} :
      QuoteState state quote escapes → Quoted quote escapes text → next ≠ some quote →
      Token line (quote :: (text ++ [quote])) next
  | comment {text : Text} {next : Option Char} : line text → Token line ('/' :: '/' :: text) next
  | block {text : Text} {next : Option Char} : ¬ ['*', '/'] <:+: text ++ ['*'] →
      Token line ('/' :: '*' :: (text ++ ['*', '/'])) next

/-- The text of an expression: tokens and pairs of braces. -/
inductive Lexical (line : Text → Prop) : Text → Prop
  | nil : Lexical line []
  | token {t rest : Text} : Token line t rest.head? → Lexical line rest → Lexical line (t ++ rest)
  | braces {inner rest : Text} : Lexical line inner → Lexical line rest →
      Lexical line ('{' :: (inner ++ '}' :: rest))

theorem scannedLine_of_newline {comment : Text} (h : LineOf [['\n'], ['\r', '\n']] comment) :
    ScannedLine comment := by
  obtain ⟨text, newline, hnewline, rfl, htext⟩ := h
  have hno : '\n' ∉ text := fun hmem => htext _ hmem (by decide)
  rcases List.mem_pair.mp hnewline with rfl | rfl
  · exact ⟨text, rfl, hno⟩
  · exact ⟨text ++ ['\r'], by simp, by simpa using hno⟩

theorem Lexical.mono {line line' : Text → Prop} (hline : ∀ comment, line comment → line' comment)
    {text : Text} (h : Lexical line text) : Lexical line' text := by
  induction h with
  | nil => exact .nil
  | token htoken _ ih =>
    refine .token ?_ ih
    cases htoken with
    | plain hc => exact .plain hc
    | slash hline hblock => exact .slash hline hblock
    | quoted hquote htext hnext => exact .quoted hquote htext hnext
    | comment htext => exact .comment (hline _ htext)
    | block htext => exact .block htext
  | braces _ _ ihinner ih => exact .braces ihinner ih

theorem Token.next {line : Text → Prop} {t : Text} {next next' : Option Char}
    (h : Token line t next)
    (hnext : ∀ c ∈ ['\'', '`', '/', '*'], next' = some c → next = some c) : Token line t next' := by
  cases h with
  | plain hc => exact .plain hc
  | slash hline hblock =>
    exact .slash (mt (hnext _ (by decide)) hline) (mt (hnext _ (by decide)) hblock)
  | quoted hquote htext hclosed =>
    refine .quoted hquote htext (mt (hnext _ ?_) hclosed)
    cases hquote <;> decide
  | comment htext => exact .comment htext
  | block htext => exact .block htext

theorem head_brace (text rest : Text) : ∀ c ∈ ['\'', '`', '/', '*'],
    (text ++ '}' :: rest).head? = some c ↔ text.head? = some c := by
  cases text with
  | nil => simp
  | cons => simp

variable {body text rest : Text} {offset : Nat} {s s' : Scan} {c : Char} {next : Option Char}

theorem scan_one (h : scanRound body offset c rest.head? s = .ok s')
    (hindex : s'.index = s.index + 1) :
    scanFragments body offset (c :: rest) s = scanFragments body offset rest s' := by
  rw [scanFragments, h, ok_bind, hindex, Nat.add_sub_cancel_left, List.drop_zero]

theorem scan_two {d : Char} (h : scanRound body offset c (some d) s = .ok s')
    (hindex : s'.index = s.index + 2) :
    scanFragments body offset (c :: d :: rest) s = scanFragments body offset rest s' := by
  rw [scanFragments, List.head?_cons, h, ok_bind, hindex, Nat.add_sub_cancel_left]
  rfl

theorem round_expression (hdepth : s.depth ≠ 0) (hstate : s.state = .normal) :
    scanRound body offset c next s = scanExpression body offset c next s := by
  rw [scanRound, if_neg hdepth, if_neg (not_not.mpr hstate)]

theorem round_within (hdepth : s.depth ≠ 0) (hstate : s.state ≠ .normal) :
    scanRound body offset c next s = .ok (scanQuotedOrComment c next s) := by
  rw [scanRound, if_neg hdepth, if_pos hstate]

section Quotes

variable {state : LexState} {quote : Char} {escapes : Prop}

theorem quoted_rounds (hquote : QuoteState state quote escapes) (hdepth : s.depth ≠ 0)
    (hstate : s.state = state) (c : Char) (next : Option Char) :
    (escapes → scanRound body offset '\\' next s = .ok { s with index := s.index + 2 }) ∧
      scanRound body offset quote (some quote) s = .ok { s with index := s.index + 2 } ∧
      (next ≠ some quote → scanRound body offset quote next s =
        .ok { s with state := .normal, index := s.index + 1 }) ∧
      (c ≠ quote → (escapes → c ≠ '\\') →
        scanRound body offset c next s = .ok { s with index := s.index + 1 }) := by
  have hnormal : s.state ≠ .normal := by
    rw [hstate]
    cases hquote <;> decide
  simp only [round_within hdepth hnormal]
  unfold scanQuotedOrComment
  cases hquote <;> refine ⟨?_, ?_, ?_, ?_⟩ <;> simp +contextual [hstate]

theorem quoted_scanned (hquote : QuoteState state quote escapes)
    (htext : Quoted quote escapes text) : ∀ s : Scan, s.depth ≠ 0 → s.state = state →
      rest.head? ≠ some quote → scanFragments body offset (text ++ quote :: rest) s =
        scanFragments body offset rest
          { s with state := .normal, index := s.index + (text.length + 1) } := by
  induction htext with
  | nil =>
    intro s hdepth hstate hrest
    exact scan_one ((quoted_rounds hquote hdepth hstate quote _).2.2.1 hrest) rfl
  | escaped hescapes _ ih =>
    intro s hdepth hstate hrest
    rw [List.cons_append, List.cons_append,
      scan_two ((quoted_rounds hquote hdepth hstate quote _).1 hescapes) rfl,
      ih { s with index := s.index + 2 } hdepth hstate hrest]
    congr 2
    simp only [List.length_cons]
    omega
  | doubled _ ih =>
    intro s hdepth hstate hrest
    rw [List.cons_append, List.cons_append,
      scan_two (quoted_rounds hquote hdepth hstate quote none).2.1 rfl,
      ih { s with index := s.index + 2 } hdepth hstate hrest]
    congr 2
    simp only [List.length_cons]
    omega
  | plain hc hescape _ ih =>
    intro s hdepth hstate hrest
    rw [List.cons_append, scan_one ((quoted_rounds hquote hdepth hstate _ _).2.2.2 hc hescape) rfl,
      ih { s with index := s.index + 1 } hdepth hstate hrest]
    congr 2
    simp only [List.length_cons]
    omega

end Quotes

theorem line_scanned (htext : '\n' ∉ text) : ∀ s : Scan, s.depth ≠ 0 → s.state = .lineComment →
    scanFragments body offset (text ++ '\n' :: rest) s =
      scanFragments body offset rest
        { s with state := .normal, index := s.index + (text.length + 1) } := by
  induction text with
  | nil =>
    intro s hdepth hstate
    refine scan_one ?_ rfl
    rw [round_within hdepth (by simp [hstate]), scanQuotedOrComment, hstate]
    rfl
  | cons c text ih =>
    intro s hdepth hstate
    rw [List.mem_cons, not_or] at htext
    have hround : scanRound body offset c (text ++ '\n' :: rest).head? s =
        .ok { s with index := s.index + 1 } := by
      rw [round_within hdepth (by simp [hstate]), scanQuotedOrComment, hstate]
      simp [Ne.symm htext.1]
    rw [List.cons_append, scan_one hround rfl,
      ih htext.2 { s with index := s.index + 1 } hdepth hstate]
    congr 2
    simp only [List.length_cons]
    omega

theorem block_scanned (htext : ¬ ['*', '/'] <:+: text ++ ['*']) :
    ∀ s : Scan, s.depth ≠ 0 → s.state = .blockComment →
      scanFragments body offset (text ++ '*' :: '/' :: rest) s =
        scanFragments body offset rest
          { s with state := .normal, index := s.index + (text.length + 2) } := by
  induction text with
  | nil =>
    intro s hdepth hstate
    refine scan_two ?_ rfl
    rw [round_within hdepth (by simp [hstate]), scanQuotedOrComment, hstate]
    rfl
  | cons c text ih =>
    intro s hdepth hstate
    -- The comment does not end at `c`.
    have hopen : ¬ (c = '*' ∧ (text ++ '*' :: '/' :: rest).head? = some '/') := by
      rintro ⟨rfl, hhead⟩
      cases text with
      | nil => simp at hhead
      | cons d text =>
        cases Option.some.inj hhead
        exact htext ⟨[], text ++ ['*'], rfl⟩
    have hround : scanRound body offset c (text ++ '*' :: '/' :: rest).head? s =
        .ok { s with index := s.index + 1 } := by
      rw [round_within hdepth (by simp [hstate]), scanQuotedOrComment, hstate]
      simp only [if_neg hopen]
    rw [List.cons_append, scan_one hround rfl,
      ih (fun h => htext (h.trans (List.suffix_cons c _).isInfix))
        { s with index := s.index + 1 } hdepth hstate]
    congr 2
    simp only [List.length_cons]
    omega

/-- A token is passed. -/
theorem token_scanned {t : Text} (h : Token ScannedLine t rest.head?) (hdepth : s.depth ≠ 0)
    (hstate : s.state = .normal) : scanFragments body offset (t ++ rest) s =
      scanFragments body offset rest { s with index := s.index + t.length } := by
  cases h with
  | @plain c _ hc =>
    refine scan_one ?_ rfl
    rw [round_expression hdepth hstate]
    unfold scanExpression
    split <;> simp_all
  | slash hline hblock =>
    refine scan_one ?_ rfl
    rw [round_expression hdepth hstate]
    unfold scanExpression
    split <;> simp_all
  | @quoted state quote escapes inner _ hquote hinner hnext =>
    have hround : scanRound body offset quote (inner ++ quote :: rest).head? s =
        .ok { s with state, index := s.index + 1 } := by
      rw [round_expression hdepth hstate]
      cases hquote <;> rfl
    rw [List.cons_append, List.append_assoc, List.singleton_append, scan_one hround rfl,
      quoted_scanned hquote hinner { s with state, index := s.index + 1 } hdepth rfl hnext]
    congr 2
    · simp only [List.length_cons, List.length_append, List.length_nil]
      omega
    · exact hstate.symm
  | comment hcomment =>
    obtain ⟨inner, rfl, hinner⟩ := hcomment
    have hround : scanRound body offset '/' (some '/') s =
        .ok { s with state := .lineComment, index := s.index + 2 } := by
      rw [round_expression hdepth hstate]
      rfl
    rw [List.cons_append, List.cons_append, List.append_assoc, List.singleton_append,
      scan_two hround rfl,
      line_scanned hinner { s with state := .lineComment, index := s.index + 2 } hdepth rfl]
    congr 2
    · simp only [List.length_cons, List.length_append, List.length_nil]
      omega
    · exact hstate.symm
  | @block inner _ hinner =>
    have hround : scanRound body offset '/' (some '*') s =
        .ok { s with state := .blockComment, index := s.index + 2 } := by
      rw [round_expression hdepth hstate]
      rfl
    rw [List.cons_append, List.cons_append, List.append_assoc, List.cons_append,
      List.singleton_append, scan_two hround rfl,
      block_scanned hinner { s with state := .blockComment, index := s.index + 2 } hdepth rfl]
    congr 2
    · simp only [List.length_cons, List.length_append, List.length_nil]
      omega
    · exact hstate.symm

theorem braces_scanned (hdepth : s.depth ≠ 0) (hstate : s.state = .normal) :
    scanFragments body offset ('{' :: rest) s =
        scanFragments body offset rest { s with depth := s.depth + 1, index := s.index + 1 } ∧
      scanFragments body offset ('}' :: rest) { s with depth := s.depth + 1 } =
        scanFragments body offset rest { s with index := s.index + 1 } := by
  refine ⟨scan_one ?_ rfl, scan_one ?_ rfl⟩
  · rw [round_expression hdepth hstate]
    rfl
  · have hround := @round_expression body offset { s with depth := s.depth + 1 } '}' rest.head?
      (Nat.succ_ne_zero _) hstate
    exact hround.trans (if_neg fun h => hdepth (Nat.succ.inj h))

theorem lexical_scanned (h : Lexical ScannedLine text) : ∀ (rest : Text) (s : Scan),
    s.depth ≠ 0 → s.state = .normal → scanFragments body offset (text ++ '}' :: rest) s =
      scanFragments body offset ('}' :: rest) { s with index := s.index + text.length } := by
  induction h with
  | nil => exact fun _ _ _ _ => rfl
  | @token t text htoken _ ih =>
    intro rest s hdepth hstate
    have hnext := htoken.next fun c hc => (head_brace text rest c hc).mp
    rw [List.append_assoc, token_scanned hnext hdepth hstate,
      ih rest { s with index := s.index + t.length } hdepth hstate, List.length_append,
      ← Nat.add_assoc]
  | @braces inner text _ _ ihinner ih =>
    intro rest s hdepth hstate
    have hclose := (@braces_scanned body (text ++ '}' :: rest) offset
      { s with index := s.index + 1 + inner.length } hdepth hstate).2
    rw [List.cons_append, List.append_assoc, List.cons_append, (braces_scanned hdepth hstate).1,
      ihinner _ { s with depth := s.depth + 1, index := s.index + 1 } (Nat.succ_ne_zero _) hstate,
      hclose, ih rest { s with index := s.index + 1 + inner.length + 1 } hdepth hstate]
    congr 2
    simp only [List.length_cons, List.length_append]
    omega

section Found

variable (hend : s'.depth = 0)

include hend

theorem quoted_found {state : LexState} {quote : Char} {escapes : Prop}
    (hquote : QuoteState state quote escapes) : ∀ (text : Text) (s : Scan), s.depth ≠ 0 →
      s.state = state → scanFragments body offset text s = .ok s' →
        ∃ inner rest, text = inner ++ quote :: rest ∧ Quoted quote escapes inner ∧
          rest.head? ≠ some quote
  | [], s, hdepth, _, h => by
    rw [scanFragments] at h
    cases h
    exact absurd hend hdepth
  | c :: text, s, hdepth, hstate, h => by
    have hrounds := @quoted_rounds body offset s state quote escapes hquote hdepth hstate
    by_cases hc : c = quote
    · subst hc
      by_cases hnext : text.head? = some c
      · obtain ⟨text, rfl⟩ := List.head?_eq_some_iff.mp hnext
        rw [scan_two (hrounds c none).2.1 rfl] at h
        obtain ⟨inner, rest, rfl, hinner, hrest⟩ :=
          quoted_found hquote text { s with index := s.index + 2 } hdepth hstate h
        exact ⟨c :: c :: inner, rest, rfl, .doubled hinner, hrest⟩
      · exact ⟨[], text, rfl, .nil, hnext⟩
    · by_cases hescape : escapes ∧ c = '\\'
      · obtain ⟨hescapes, rfl⟩ := hescape
        have hround := fun next => (hrounds '\\' next).1 hescapes
        cases text with
        | nil =>
          rw [scanFragments, hround, ok_bind, List.drop_nil, scanFragments] at h
          cases h
          exact absurd hend hdepth
        | cons d text =>
          rw [scan_two (hround _) rfl] at h
          obtain ⟨inner, rest, rfl, hinner, hrest⟩ :=
            quoted_found hquote text { s with index := s.index + 2 } hdepth hstate h
          exact ⟨'\\' :: d :: inner, rest, rfl, .escaped hescapes hinner, hrest⟩
      · have hplain : escapes → c ≠ '\\' := fun hescapes heq => hescape ⟨hescapes, heq⟩
        rw [scan_one ((hrounds c _).2.2.2 hc hplain) rfl] at h
        obtain ⟨inner, rest, rfl, hinner, hrest⟩ :=
          quoted_found hquote text { s with index := s.index + 1 } hdepth hstate h
        exact ⟨c :: inner, rest, rfl, .plain hc hplain hinner, hrest⟩

theorem line_found : ∀ (text : Text) (s : Scan), s.depth ≠ 0 → s.state = .lineComment →
    scanFragments body offset text s = .ok s' →
      ∃ inner rest, text = inner ++ '\n' :: rest ∧ '\n' ∉ inner
  | [], s, hdepth, _, h => by
    rw [scanFragments] at h
    cases h
    exact absurd hend hdepth
  | c :: text, s, hdepth, hstate, h => by
    by_cases hc : c = '\n'
    · exact ⟨[], text, congrArg (· :: text) hc, List.not_mem_nil⟩
    · have hround : scanRound body offset c text.head? s = .ok { s with index := s.index + 1 } := by
        rw [round_within hdepth (by simp [hstate]), scanQuotedOrComment, hstate]
        simp [hc]
      rw [scan_one hround rfl] at h
      obtain ⟨inner, rest, rfl, hinner⟩ :=
        line_found text { s with index := s.index + 1 } hdepth hstate h
      refine ⟨c :: inner, rest, rfl, ?_⟩
      rw [List.mem_cons, not_or]
      exact ⟨Ne.symm hc, hinner⟩

theorem block_found : ∀ (text : Text) (s : Scan), s.depth ≠ 0 → s.state = .blockComment →
    scanFragments body offset text s = .ok s' →
      ∃ inner rest, text = inner ++ '*' :: '/' :: rest ∧ ¬ ['*', '/'] <:+: inner ++ ['*']
  | [], s, hdepth, _, h => by
    rw [scanFragments] at h
    cases h
    exact absurd hend hdepth
  | c :: text, s, hdepth, hstate, h => by
    by_cases hc : c = '*' ∧ text.head? = some '/'
    · obtain ⟨rfl, hnext⟩ := hc
      obtain ⟨text, rfl⟩ := List.head?_eq_some_iff.mp hnext
      exact ⟨[], text, rfl, by decide⟩
    · have hround : scanRound body offset c text.head? s = .ok { s with index := s.index + 1 } := by
        rw [round_within hdepth (by simp [hstate]), scanQuotedOrComment, hstate]
        simp only [if_neg hc]
      rw [scan_one hround rfl] at h
      obtain ⟨inner, rest, rfl, hinner⟩ :=
        block_found text { s with index := s.index + 1 } hdepth hstate h
      refine ⟨c :: inner, rest, rfl, fun hin => ?_⟩
      rcases List.infix_cons_iff.mp hin with hstart | hin
      · obtain ⟨hstar, hslash⟩ := List.cons_prefix_cons.mp hstart
        refine hc ⟨hstar.symm, ?_⟩
        cases inner with
        | nil => exact absurd hslash (by decide)
        | cons d inner => exact congrArg some (List.cons_prefix_cons.mp hslash).1.symm
      · exact hinner hin

theorem token_found (hdepth : s.depth ≠ 0) (hstate : s.state = .normal) (hc : c ∉ ['{', '}'])
    (h : scanFragments body offset (c :: text) s = .ok s') :
    ∃ t rest, c :: text = t ++ rest ∧ t ≠ [] ∧ Token ScannedLine t rest.head? := by
  have hround := fun d next => @round_expression body offset s d next hdepth hstate
  have hquotes : ∀ {state quote escapes}, QuoteState state quote escapes → c = quote →
      ∃ t rest, c :: text = t ++ rest ∧ t ≠ [] ∧ Token ScannedLine t rest.head? := by
    rintro state quote escapes hquote rfl
    have hopen : scanRound body offset c text.head? s =
        .ok { s with state, index := s.index + 1 } := by
      rw [hround]
      cases hquote <;> rfl
    rw [scan_one hopen rfl] at h
    obtain ⟨inner, rest, rfl, hinner, hrest⟩ := quoted_found hend hquote text
      { s with state, index := s.index + 1 } hdepth rfl h
    exact ⟨c :: (inner ++ [c]), rest, by simp, List.cons_ne_nil _ _,
      .quoted hquote hinner hrest⟩
  by_cases hstring : c = '\''
  · exact hquotes .string hstring
  by_cases hname : c = '`'
  · exact hquotes .name hname
  by_cases hslash : c = '/'
  · subst hslash
    by_cases hline : text.head? = some '/'
    · obtain ⟨text, rfl⟩ := List.head?_eq_some_iff.mp hline
      rw [scan_two (hround _ _) rfl] at h
      obtain ⟨inner, rest, rfl, hinner⟩ := line_found hend text
        { s with state := .lineComment, index := s.index + 2 } hdepth rfl h
      exact ⟨'/' :: '/' :: (inner ++ ['\n']), rest, by simp, List.cons_ne_nil _ _,
        .comment ⟨inner, rfl, hinner⟩⟩
    by_cases hblock : text.head? = some '*'
    · obtain ⟨text, rfl⟩ := List.head?_eq_some_iff.mp hblock
      rw [scan_two (hround _ _) rfl] at h
      obtain ⟨inner, rest, rfl, hinner⟩ := block_found hend text
        { s with state := .blockComment, index := s.index + 2 } hdepth rfl h
      exact ⟨'/' :: '*' :: (inner ++ ['*', '/']), rest, by simp, List.cons_ne_nil _ _,
        .block hinner⟩
    · exact ⟨['/'], text, rfl, List.cons_ne_nil _ _, .slash hline hblock⟩
  · refine ⟨[c], text, rfl, List.cons_ne_nil _ _, .plain ?_⟩
    simp_all

/-- **A scan that ends outside all expressions has read an expression.** -/
theorem lexical_found (text : Text) (s : Scan) (hdepth : s.depth ≠ 0) (hstate : s.state = .normal)
    (h : scanFragments body offset text s = .ok s') :
    ∃ inner rest, text = inner ++ '}' :: rest ∧ Lexical ScannedLine inner := by
  cases text with
  | nil =>
    rw [scanFragments] at h
    cases h
    exact absurd hend hdepth
  | cons c text =>
    by_cases hc : c ∈ ['{', '}']
    · rcases List.mem_pair.mp hc with rfl | rfl
      · rw [(braces_scanned hdepth hstate).1] at h
        obtain ⟨inner, rest, rfl, hinner⟩ := lexical_found text
          { s with depth := s.depth + 1, index := s.index + 1 } (Nat.succ_ne_zero _) hstate h
        rw [lexical_scanned hinner rest
            { s with depth := s.depth + 1, index := s.index + 1 } (Nat.succ_ne_zero _) hstate] at h
        have hclose := (@braces_scanned body rest offset
          { s with index := s.index + 1 + inner.length } hdepth hstate).2
        obtain ⟨inner', rest', rfl, hinner'⟩ := lexical_found rest
          { s with index := s.index + 1 + inner.length + 1 } hdepth hstate (hclose.symm.trans h)
        exact ⟨'{' :: (inner ++ '}' :: inner'), rest', by simp, .braces hinner hinner'⟩
      · exact ⟨[], text, rfl, .nil⟩
    · obtain ⟨t, rest, htext, hne, htoken⟩ := token_found hend hdepth hstate hc h
      rw [htext] at h ⊢
      rw [token_scanned htoken hdepth hstate] at h
      have hpos := List.length_pos_of_ne_nil hne
      obtain ⟨inner, rest, rfl, hinner⟩ :=
        lexical_found rest { s with index := s.index + t.length } hdepth hstate h
      have hnext := htoken.next fun c hc => (head_brace inner rest c hc).mpr
      exact ⟨t ++ inner, rest, (List.append_assoc _ _ _).symm, .token hnext hinner⟩
  termination_by text.length
  decreasing_by all_goals simp_all <;> omega

end Found

/-! ## 4. Writing -/

/-- The text with a backslash in front of its special characters. -/
def escape (special : List Char) (text : Text) : Text :=
  text.flatMap fun c => if c ∈ special then ['\\', c] else [c]

/-- A text between the expressions of an interpolated string. -/
def writeText (text : Text) : Text := escape ['{', '}', '"', '\\'] text

/-- The text of an expression, and the text behind it. -/
structure Interpolant where
  source : Text
  behind : Text

def writePieces : List Interpolant → Text
  | [] => []
  | piece :: pieces =>
    '{' :: (piece.source ++ '}' :: (writeText piece.behind ++ writePieces pieces))

/-- What stands between the quotes of an interpolated string. -/
def writeBody (first : Text) (pieces : List Interpolant) : Text :=
  writeText first ++ writePieces pieces

/-- A text is a part unless it is empty. -/
def textParts (text : Text) : List (InterpolatedPart E) := if text = [] then [] else [.text text]

def writtenParts (value : Text → E) : List Interpolant → List (InterpolatedPart E)
  | [] => []
  | piece :: pieces =>
    .expression (value piece.source) :: (textParts piece.behind ++ writtenParts value pieces)

theorem escape_cons (special : List Char) (c : Char) (text : Text) :
    escape special (c :: text) =
      (if c ∈ special then ['\\', c] else [c]) ++ escape special text := List.flatMap_cons

theorem unescape_escape {quote : Char} {special : List Char} (hquote : quote ∈ special)
    (hslash : '\\' ∈ special) (hne : quote ≠ '\\')
    (hself : ∀ c ∈ special, c ≠ 'u' ∧ escapedChar c = c) :
    ∀ text : Text, unescape quote (escape special text) = .ok text
  | [] => rfl
  | c :: text => by
    have ih := unescape_escape hquote hslash hne hself text
    rw [escape_cons]
    by_cases hc : c ∈ special
    · obtain ⟨hu, hchar⟩ := hself c hc
      rw [if_pos hc, List.cons_append, List.cons_append, List.nil_append, unescape,
        if_neg (fun h => hne h.1.symm), if_neg (fun h => h rfl), ih, ok_bind, hchar]
      · rfl
      · exact fun _ => hu
    · have hcq : c ≠ quote := fun h => hc (h ▸ hquote)
      have hcs : c ≠ '\\' := fun h => hc (h ▸ hslash)
      rw [if_neg hc, List.cons_append, List.nil_append]
      cases hrest : escape special text with
      | nil =>
        rw [hrest] at ih
        cases ih
        rw [unescape, if_neg hcs]
      | cons d rest =>
        rw [unescape, if_neg (fun h => hcq h.1), if_pos hcs, ← hrest, ih]
        · rfl
        · exact fun h => absurd h hcs

theorem parseString_escape {quote : Char} (hquote : quote = '\'' ∨ quote = '"')
    {special : List Char} (hspecial : quote ∈ special) (hslash : '\\' ∈ special)
    (hself : ∀ c ∈ special, c ≠ 'u' ∧ escapedChar c = c) (text : Text) :
    parseString (quote :: (escape special text ++ [quote])) = .ok text := by
  have hne : quote ≠ '\\' := by rcases hquote with rfl | rfl <;> decide
  obtain ⟨c, rest, hrest⟩ := List.exists_cons_of_ne_nil
    (List.append_ne_nil_of_right_ne_nil (escape special text) (List.cons_ne_nil quote []))
  have hlast : (escape special text ++ [quote]).getLast? = some quote := List.getLast?_concat
  rw [hrest, parseString, if_pos ⟨hquote, hrest ▸ hlast⟩, ← hrest, List.dropLast_concat]
  exact unescape_escape hspecial hslash hne hself text

/-! ## 5. Reading back -/

theorem writeText_cons (c : Char) (text : Text) : writeText (c :: text) =
    (if c ∈ ['{', '}', '"', '\\'] then ['\\', c] else [c]) ++ writeText text := escape_cons ..

theorem text_scanned : ∀ (text : Text) (s : Scan), s.depth = 0 →
    scanFragments body offset (writeText text ++ rest) s =
      scanFragments body offset rest { s with index := s.index + (writeText text).length }
  | [], s, _ => rfl
  | c :: text, s, hdepth => by
    rw [writeText_cons]
    by_cases hc : c ∈ ['{', '}', '"', '\\']
    · have hround : scanRound body offset '\\' (some c) s =
          .ok { s with index := s.index + 2 } := if_pos hdepth
      rw [if_pos hc, List.append_assoc, List.cons_append, List.cons_append, List.nil_append,
        scan_two hround rfl, text_scanned text { s with index := s.index + 2 } hdepth]
      congr 2
      simp only [List.length_cons, List.length_append, List.length_nil]
      omega
    · have hround : scanRound body offset c (writeText text ++ rest).head? s =
          .ok { s with index := s.index + 1 } := by
        rw [scanRound, if_pos hdepth]
        unfold scanOuterText
        split <;> simp_all
      rw [if_neg hc, List.append_assoc, List.cons_append, List.nil_append,
        scan_one hround rfl, text_scanned text { s with index := s.index + 1 } hdepth]
      congr 2
      simp only [List.length_cons, List.length_append, List.length_nil]
      omega

/-- The fragments of the expressions, the first of which opens at `position`. -/
def fragmentsAt (position : Nat) : List Interpolant → List InterpolationFragment
  | [] => []
  | piece :: pieces =>
    ⟨trim piece.source, position + 1 + (piece.source.length - (trimStart piece.source).length),
      position + 1 + piece.source.length⟩ ::
    fragmentsAt (position + 1 + piece.source.length + 1 + (writeText piece.behind).length) pieces

theorem slice_append (front mid behind : Text) :
    ((front ++ (mid ++ behind)).take (front.length + mid.length)).drop front.length = mid := by
  rw [← List.append_assoc, List.take_left' List.length_append, List.drop_left]

/-- **An expression is scanned to its fragment**, unless it is blank. -/
theorem piece_scanned {front source behind : Text} (hsource : Lexical ScannedLine source)
    (hbody : body = front ++ '{' :: (source ++ '}' :: behind)) (hindex : s.index = front.length)
    (hdepth : s.depth = 0) (hstate : s.state = .normal) :
    scanFragments body offset ('{' :: (source ++ '}' :: behind)) s =
      if trim source = [] then .error "string interpolation expression must not be empty"
      else scanFragments body offset behind { s with
        depth := 0, start := none, index := s.index + 1 + source.length + 1
        output := s.output ++ [⟨trim source,
          offset + s.index + 1 + (source.length - (trimStart source).length),
          offset + s.index + 1 + source.length⟩] } := by
  have hopen : scanRound body offset '{' (source ++ '}' :: behind).head? s =
      .ok { s with start := some (s.index + 1), depth := 1, index := s.index + 1 } := if_pos hdepth
  have hraw : (body.take (s.index + 1 + source.length)).drop (s.index + 1) = source := by
    have hfront : s.index + 1 = (front ++ ['{']).length := by
      rw [hindex, List.length_append, List.length_singleton]
    rw [hfront, hbody, List.append_cons front '{' (source ++ _), slice_append]
  -- The closing brace pushes the fragment.
  have hclose : scanRound body offset '}' behind.head?
      { s with start := some (s.index + 1), depth := 1, index := s.index + 1 + source.length } =
        if trim source = [] then .error "string interpolation expression must not be empty"
        else .ok { s with
          depth := 0, start := none, index := s.index + 1 + source.length + 1
          output := s.output ++ [⟨trim source,
            offset + s.index + 1 + (source.length - (trimStart source).length),
            offset + s.index + 1 + source.length⟩] } := by
    rw [scanRound, if_neg Nat.one_ne_zero, if_neg (not_not.mpr hstate), scanExpression, if_pos rfl,
      pushFragment]
    simp only [Option.getD_some, hraw, List.isEmpty_iff, ← Nat.add_assoc]
    split <;> rfl
  rw [scan_one hopen rfl, lexical_scanned hsource _
    { s with start := some (s.index + 1), depth := 1, index := s.index + 1 } Nat.one_ne_zero hstate]
  split
  next hblank =>
    rw [if_pos hblank] at hclose
    rw [scanFragments, hclose]
    rfl
  next hblank =>
    rw [if_neg hblank] at hclose
    rw [scan_one hclose rfl]

/-- **The scanner finds the expressions.** -/
theorem pieces_scanned : ∀ (pieces : List Interpolant) (front : Text) (s : Scan),
    (∀ piece ∈ pieces, Lexical ScannedLine piece.source ∧ trim piece.source ≠ []) →
      body = front ++ writePieces pieces → s.index = front.length → s.depth = 0 →
        s.state = .normal → ∃ s', scanFragments body offset (writePieces pieces) s = .ok s' ∧
          s'.depth = 0 ∧ s'.output = s.output ++ fragmentsAt (offset + s.index) pieces
  | [], front, s, _, _, _, hdepth, _ =>
    ⟨s, by rw [writePieces, scanFragments], hdepth, (List.append_nil _).symm⟩
  | ⟨source, behind⟩ :: pieces, front, s, hpieces, hbody, hindex, hdepth, hstate => by
    obtain ⟨⟨hlexical, htrim⟩, hpieces⟩ := List.forall_mem_cons.mp hpieces
    obtain ⟨s', hrun, hdone, houtput⟩ := pieces_scanned pieces
      (front ++ ['{'] ++ source ++ ['}'] ++ writeText behind)
      { s with
        depth := 0, start := none
        index := s.index + 1 + source.length + 1 + (writeText behind).length
        output := s.output ++ [⟨trim source,
          offset + s.index + 1 + (source.length - (trimStart source).length),
          offset + s.index + 1 + source.length⟩] }
      hpieces (by rw [hbody, writePieces]; simp) (by simp [hindex]; omega) rfl hstate
    refine ⟨s', ?_, hdone, ?_⟩
    · rw [writePieces, piece_scanned hlexical hbody hindex hdepth hstate, if_neg htrim,
        text_scanned behind]
      · exact hrun
      · rfl
    · rw [houtput, fragmentsAt, List.append_assoc, List.singleton_append]
      simp only [Nat.add_assoc]

theorem interpolationBody_written {mark : Char} (hmark : mark = 's' ∨ mark = 'S') (value : Text) :
    interpolationBody (mark :: '"' :: (value ++ ['"'])) = .ok value := by
  rcases hmark with rfl | rfl <;> simp [interpolationBody]

theorem fragments_written {mark : Char} (hmark : mark = 's' ∨ mark = 'S') {first : Text}
    {pieces : List Interpolant}
    (hpieces : ∀ piece ∈ pieces, Lexical ScannedLine piece.source ∧ trim piece.source ≠ []) :
    interpolationFragments (mark :: '"' :: (writeBody first pieces ++ ['"'])) =
      .ok (fragmentsAt (2 + (writeText first).length) pieces) := by
  obtain ⟨s', hrun, hdepth, houtput⟩ := @pieces_scanned (writeBody first pieces) 2 pieces
    (writeText first) { index := (writeText first).length } hpieces rfl rfl rfl rfl
  have hoffset : (mark :: '"' :: (writeBody first pieces ++ ['"'])).length -
      (writeBody first pieces).length - 1 = 2 := by
    simp only [List.length_cons, List.length_append, List.length_nil]
    omega
  have hscan : scanFragments (writeBody first pieces) 2 (writeBody first pieces) {} = .ok s' := by
    conv_lhs => arg 3; rw [writeBody]
    rw [text_scanned first {} rfl, Nat.zero_add]
    exact hrun
  rw [interpolationFragments, interpolationBody_written hmark, ok_bind, hoffset, hscan, ok_bind,
    if_neg (not_not.mpr hdepth), houtput]
  rfl

theorem escapedChar_special : ∀ c ∈ ['{', '}', '"', '\\'], c ≠ 'u' ∧ escapedChar c = c := by
  simp only [List.forall_mem_cons, List.not_mem_nil, false_imp_iff, implies_true, and_true]
  exact ⟨⟨by decide, rfl⟩, ⟨by decide, rfl⟩, ⟨by decide, rfl⟩, by decide, rfl⟩

theorem textPart_written (front text behind : Text) :
    textPart (E := E) (front ++ (writeText text ++ behind)) front.length
      (front.length + (writeText text).length) = .ok (textParts text) := by
  unfold textPart textParts
  cases text with
  | nil => exact if_neg (Nat.lt_irrefl _)
  | cons c text =>
    have hpos : 0 < (writeText (c :: text)).length := by
      rw [writeText_cons, List.length_append]
      split <;> exact Nat.lt_add_right _ (Nat.succ_pos _)
    rw [if_pos (Nat.lt_add_of_pos_right hpos), slice_append, writeText,
      parseString_escape (.inr rfl) (by decide) (by decide) escapedChar_special, ok_bind,
      if_neg (List.cons_ne_nil c text)]
    rfl

theorem not_mem_whitespace (source : Text) : '{' ∉ source.takeWhile isWhitespace := fun h =>
  absurd (List.mem_takeWhile_imp h) (by decide)

/-- **The fragments are compiled to the parts.** -/
theorem compileFragments_written {compile : Text → QueryResult E} {value : Text → E} :
    ∀ (pieces : List Interpolant) (front text : Text),
      (∀ piece ∈ pieces, compile (trim piece.source) = .ok (value piece.source)) →
        compileFragments compile (front ++ (writeText text ++ (writePieces pieces ++ ['"'])))
          (fragmentsAt (front.length + (writeText text).length) pieces) front.length =
            .ok (textParts text ++ writtenParts value pieces)
  | [], front, text, _ => by
    have hstop : (front ++ (writeText text ++ ([] ++ ['"']))).length - 1 =
        front.length + (writeText text).length := by
      simp only [List.length_append, List.length_cons, List.length_nil]
      omega
    rw [writePieces, fragmentsAt, compileFragments, hstop, textPart_written, writtenParts,
      List.append_nil]
  | ⟨source, behind⟩ :: pieces, front, text, hpieces => by
    obtain ⟨hcompile, hpieces⟩ := List.forall_mem_cons.mp hpieces
    have ih := compileFragments_written pieces
      (front ++ (writeText text ++ '{' :: (source ++ ['}']))) behind hpieces
    have hlength : (front ++ (writeText text ++ '{' :: (source ++ ['}']))).length =
        front.length + (writeText text).length + 1 + source.length + 1 := by
      simp only [List.length_append, List.length_cons, List.length_nil]
      omega
    have hraw : front ++ (writeText text ++ '{' :: (source ++ ['}'])) ++
        (writeText behind ++ (writePieces pieces ++ ['"'])) =
          front ++ (writeText text ++ (writePieces (⟨source, behind⟩ :: pieces) ++ ['"'])) := by
      simp only [writePieces, List.append_assoc, List.cons_append, List.nil_append]
    rw [hlength, hraw] at ih
    -- The last brace in front of the fragment is the one that opens it.
    have hsplit : source = source.takeWhile isWhitespace ++ trimStart source :=
      List.takeWhile_append_dropWhile.symm
    have hleading : source.length - (trimStart source).length =
        (source.takeWhile isWhitespace).length := by
      have hlength := congrArg List.length hsplit
      rw [List.length_append] at hlength
      omega
    have hfront : (front ++ (writeText text ++
        (writePieces (⟨source, behind⟩ :: pieces) ++ ['"']))).take
          (front.length + (writeText text).length + 1 +
            (source.length - (trimStart source).length)) =
        (front ++ writeText text) ++ '{' :: source.takeWhile isWhitespace := by
      have hregroup : front ++ (writeText text ++
          (writePieces (⟨source, behind⟩ :: pieces) ++ ['"'])) =
            ((front ++ writeText text) ++ '{' :: source.takeWhile isWhitespace) ++
              (trimStart source ++ '}' :: (writeText behind ++ (writePieces pieces ++ ['"']))) := by
        conv_lhs => rw [writePieces, hsplit]
        simp only [List.append_assoc, List.cons_append]
      rw [hleading, hregroup]
      refine List.take_left' ?_
      simp only [List.length_append, List.length_cons]
      omega
    rw [fragmentsAt, compileFragments, hfront, rsplitOnce_append (not_mem_whitespace source)]
    simp only
    rw [List.length_append, textPart_written, ok_bind, hcompile, ok_bind, ih]
    rfl

theorem takeInterpolated_source : ∀ {source : Text}, '"' ∉ source → ∀ {taken rest' : Text},
    takeInterpolated rest = some (taken, rest') →
      takeInterpolated (source ++ '}' :: rest) = some (source ++ '}' :: taken, rest')
  | [], _, taken, rest', h => by
    rw [List.nil_append, takeInterpolated, h]
    · rfl
    all_goals simp
  | c :: source, hquote, taken, rest', h => by
    rw [List.mem_cons, not_or] at hquote
    by_cases hc : c = '\\'
    · subst hc
      cases source with
      | nil =>
        rw [List.singleton_append, takeInterpolated, h]
        rfl
      | cons d source =>
        rw [List.cons_append, List.cons_append, takeInterpolated,
          takeInterpolated_source (fun hmem => hquote.2 (.tail _ hmem)) h]
        rfl
    · rw [List.cons_append, takeInterpolated, takeInterpolated_source hquote.2 h]
      · rfl
      · exact fun _ _ h => absurd h hc
      · exact fun h => hquote.1 h.symm

theorem takeInterpolated_text : ∀ (text : Text) {taken rest' : Text},
    takeInterpolated rest = some (taken, rest') →
      takeInterpolated (writeText text ++ rest) = some (writeText text ++ taken, rest')
  | [], _, _, h => h
  | c :: text, taken, rest', h => by
    have ih := takeInterpolated_text text h
    rw [writeText_cons]
    by_cases hc : c ∈ ['{', '}', '"', '\\']
    · rw [if_pos hc, List.append_assoc, List.cons_append, List.cons_append, List.nil_append,
        takeInterpolated, ih]
      rfl
    · rw [if_neg hc, List.append_assoc, List.cons_append, List.nil_append, takeInterpolated, ih]
      · rfl
      all_goals simp_all

theorem takeInterpolated_written (rest : Text) : ∀ pieces : List Interpolant,
    (∀ piece ∈ pieces, '"' ∉ piece.source) →
      takeInterpolated (writePieces pieces ++ '"' :: rest) =
        some (writePieces pieces ++ ['"'], rest)
  | [], _ => by
    rfl
  | piece :: pieces, h => by
    obtain ⟨hquote, h⟩ := List.forall_mem_cons.mp h
    have htaken := takeInterpolated_source hquote (takeInterpolated_text piece.behind
      (takeInterpolated_written rest pieces h))
    rw [writePieces, List.cons_append, List.append_assoc, List.cons_append, List.append_assoc,
      takeInterpolated, htaken]
    all_goals simp [List.append_assoc]

/-! ## 6. What is read back -/

theorem round_output (h : scanRound body offset c next s = .ok s') : s.output <+: s'.output := by
  unfold scanRound at h
  split at h
  · unfold scanOuterText at h
    split at h <;> cases h <;> exact List.prefix_rfl
  split at h
  · cases h
    unfold scanQuotedOrComment
    cases s.state <;> dsimp only <;> repeat' split
    all_goals exact List.prefix_rfl
  · unfold scanExpression at h
    split at h <;> try (cases h; exact List.prefix_rfl)
    split at h
    · obtain ⟨output, hpush, h⟩ := bind_eq_ok.mp h
      cases h
      unfold pushFragment at hpush
      extract_lets at hpush
      split at hpush
      · cases hpush
      · cases hpush
        exact List.prefix_append _ _
    · cases h
      exact List.prefix_rfl

theorem output_kept (text : Text) (s : Scan) (h : scanFragments body offset text s = .ok s') :
    s.output <+: s'.output := by
  cases text with
  | nil =>
    rw [scanFragments] at h
    cases h
    exact List.prefix_rfl
  | cons c text =>
    rw [scanFragments] at h
    obtain ⟨s₁, hround, h⟩ := bind_eq_ok.mp h
    exact (round_output hround).trans (output_kept _ _ h)
  termination_by text.length
  decreasing_by all_goals simp_all <;> omega

/-- The closing braces of a text. -/
def closings (text : Text) : Nat := text.count '}'

theorem closings_trim (text : Text) : closings (trim text) = closings text := by
  have hstart : ∀ text : Text, closings (text.dropWhile isWhitespace) = closings text := by
    intro text
    have hblank : closings (text.takeWhile isWhitespace) = 0 :=
      List.count_eq_zero.mpr fun h => absurd (List.mem_takeWhile_imp h) (by decide)
    have hsplit := congrArg closings (@List.takeWhile_append_dropWhile _ isWhitespace text)
    unfold closings at hblank hsplit ⊢
    rw [List.count_append, hblank, Nat.zero_add] at hsplit
    exact hsplit
  unfold trim trimStart List.rdropWhile
  rw [closings, List.count_reverse, ← closings, hstart, closings, List.count_reverse, ← closings,
    hstart]

theorem closings_told {front front' behind behind' : Text}
    (h : front ++ '}' :: behind = front' ++ '}' :: behind')
    (hcount : closings front = closings front') : front = front' ∧ behind = behind' := by
  unfold closings at hcount
  rcases List.append_eq_append_iff.mp h with ⟨more, rfl, hmore⟩ | ⟨more, rfl, hmore⟩
  · cases more with
    | nil => simpa using hmore
    | cons c more =>
      obtain ⟨rfl, _⟩ := List.cons.inj hmore
      simp at hcount
  · cases more with
    | nil => simpa using hmore.symm
    | cons c more =>
      obtain ⟨rfl, _⟩ := List.cons.inj hmore
      simp at hcount

/-- **Where the fragments have the braces of the expressions, the scanner has read these.** -/
theorem lexical_of_scanned : ∀ (pieces : List Interpolant) (front : Text) (s : Scan),
    body = front ++ writePieces pieces → s.index = front.length → s.depth = 0 →
      s.state = .normal → scanFragments body offset (writePieces pieces) s = .ok s' →
        s'.depth = 0 → ∀ found, s'.output = s.output ++ found →
          found.map (closings ·.text) = pieces.map (closings ·.source) →
            ∀ piece ∈ pieces, Lexical ScannedLine piece.source
  | [], _, _, _, _, _, _, _, _, _, _, _ => fun _ h => by cases h
  | ⟨source, behind⟩ :: pieces, front, s, hbody, hindex, hdepth, hstate, h, hend, found, hfound,
      hcount => by
    rw [writePieces] at h hbody
    have hopen : scanRound body offset '{'
        (source ++ '}' :: (writeText behind ++ writePieces pieces)).head? s =
          .ok { s with start := some (s.index + 1), depth := 1, index := s.index + 1 } :=
      if_pos hdepth
    obtain ⟨inner, rest, hsplit, hinner⟩ := lexical_found hend _
      { s with start := some (s.index + 1), depth := 1, index := s.index + 1 } Nat.one_ne_zero
      hstate ((scan_one hopen rfl).symm.trans h)
    rw [hsplit] at h hbody
    rw [piece_scanned hinner hbody hindex hdepth hstate] at h
    split at h
    · cases h
    -- The first fragment is that of `inner`, which has the braces of `source`.
    obtain ⟨others, hothers⟩ := output_kept _ _ h
    rw [hfound, List.append_assoc, List.append_cancel_left_eq] at hothers
    subst hothers
    rw [List.singleton_append, List.map_cons, List.map_cons, closings_trim] at hcount
    obtain ⟨hsource, hothers⟩ := List.cons.inj hcount
    obtain ⟨rfl, rfl⟩ := closings_told hsplit hsource.symm
    rw [text_scanned behind _ rfl] at h
    refine List.forall_mem_cons.mpr ⟨hinner, lexical_of_scanned pieces
      (front ++ ['{'] ++ source ++ ['}'] ++ writeText behind) _ ?_ ?_ ?_ ?_ h hend others ?_ hothers⟩
    · rw [hbody]
      simp
    · simp only [List.length_append, List.length_cons, List.length_nil, hindex]
    · rfl
    · exact hstate
    · rw [hfound, List.append_assoc]

def InterpolatedPart.expression? : InterpolatedPart E → Option E
  | .text _ => none
  | .expression e => some e

theorem textParts_expressions (text : Text) :
    (textParts (E := E) text).filterMap InterpolatedPart.expression? = [] := by
  unfold textParts
  split <;> rfl

theorem writtenParts_expressions (value : Text → E) : ∀ pieces : List Interpolant,
    (writtenParts value pieces).filterMap InterpolatedPart.expression? = pieces.map (value ·.source)
  | [] => rfl
  | piece :: pieces => by
    have hfirst : (InterpolatedPart.expression (value piece.source)).expression? =
        some (value piece.source) := rfl
    rw [writtenParts, List.filterMap_cons_some hfirst, List.filterMap_append,
      textParts_expressions, writtenParts_expressions value pieces]
    rfl

theorem textPart_expressions {raw : Text} {cursor stop : Nat} {parts : List (InterpolatedPart E)}
    (h : textPart raw cursor stop = .ok parts) :
    parts.filterMap InterpolatedPart.expression? = [] := by
  unfold textPart at h
  split at h
  · obtain ⟨_, _, h⟩ := bind_eq_ok.mp h
    cases h
    rfl
  · cases h
    rfl

theorem compileFragments_expressions {value : Text → E} {raw : Text} :
    ∀ {fragments : List InterpolationFragment} {cursor : Nat} {parts : List (InterpolatedPart E)},
      compileFragments (fun text => .ok (value text)) raw fragments cursor = .ok parts →
        parts.filterMap InterpolatedPart.expression? = fragments.map (value ·.text)
  | [], _, _, h => textPart_expressions h
  | fragment :: fragments, cursor, parts, h => by
    unfold compileFragments at h
    split at h
    · cases h
    · obtain ⟨text, htext, h⟩ := bind_eq_ok.mp h
      rw [ok_bind] at h
      obtain ⟨others, hothers, h⟩ := bind_eq_ok.mp h
      cases h
      have hfirst : (InterpolatedPart.expression (value fragment.text)).expression? =
          some (value fragment.text) := rfl
      rw [List.filterMap_append, textPart_expressions htext, List.nil_append,
        List.filterMap_cons_some hfirst, compileFragments_expressions hothers]
      rfl

/-- **Interpolated strings are split where they were written, as far as line comments end where the
scanner ends them.** For texts and expressions in any order, the string is one token of the grammar;
and compiling it gives the texts and the expressions it was written from, whatever these mean,
exactly where every expression is one for the scanner, to which a bare carriage return ends no
comment. A string in quotes is the string that was quoted. `compile` parses the text of an
expression and compiles it; space around an expression does not matter to it. -/
theorem interpolated_comes_back {mark : Char} (hmark : mark = 's' ∨ mark = 'S') (first : Text)
    (pieces : List Interpolant)
    (hpieces : ∀ piece ∈ pieces, '"' ∉ piece.source ∧ trim piece.source ≠ []) :
    (∀ rest, takeInterpolated (writeBody first pieces ++ '"' :: rest) =
      some (writeBody first pieces ++ ['"'], rest)) ∧
    ((∀ (E : Type) (compile : Text → QueryResult E) (value : Text → E),
      (∀ source expression, compile source = .ok expression →
        compile (trim source) = .ok expression) →
      (∀ piece ∈ pieces, compile piece.source = .ok (value piece.source)) →
      compileInterpolated compile (mark :: '"' :: (writeBody first pieces ++ ['"'])) =
        .ok (textParts first ++ writtenParts value pieces)) ↔
      ∀ piece ∈ pieces, Lexical ScannedLine piece.source) ∧
    ((∀ piece ∈ pieces, Lexical (LineOf [['\n'], ['\r', '\n']]) piece.source) →
      ∀ piece ∈ pieces, Lexical ScannedLine piece.source) ∧
    ∀ (quote : Char) (text : Text), quote = '\'' ∨ quote = '"' →
      parseString (quote :: (escape [quote, '\\'] text ++ [quote])) = .ok text := by
  refine ⟨fun rest => ?_, ⟨fun h => ?_, fun h E compile value htrim hcompile => ?_⟩,
    fun h piece hpiece => (h piece hpiece).mono fun _ => scannedLine_of_newline,
    fun quote text hquote => ?_⟩
  · have htaken := takeInterpolated_text first
      (takeInterpolated_written rest pieces fun piece hpiece => (hpieces piece hpiece).1)
    rw [writeBody, List.append_assoc, htaken, List.append_assoc]
  · -- An expression may mean how many closing braces it has.
    have hparts := h Nat (fun text => .ok (closings text)) closings
      (fun source _ hsource => by rw [closings_trim]; exact hsource) fun _ _ => rfl
    obtain ⟨fragments, hfragments, hparts⟩ := bind_eq_ok.mp hparts
    have hcount := compileFragments_expressions hparts
    rw [List.filterMap_append, textParts_expressions, writtenParts_expressions,
      List.nil_append] at hcount
    cases hrun : interpolationFragments (mark :: '"' :: (writeBody first pieces ++ ['"'])) with
    | error _ =>
      rw [hrun] at hfragments
      cases hfragments
    | ok _ =>
      rw [hrun] at hfragments
      cases hfragments
      rw [interpolationFragments, interpolationBody_written hmark, ok_bind] at hrun
      obtain ⟨s', hscan, hrun⟩ := bind_eq_ok.mp hrun
      split at hrun
      · cases hrun
      next hend =>
        cases hrun
        conv_lhs at hscan => arg 3; rw [writeBody]
        rw [text_scanned first {} rfl, Nat.zero_add] at hscan
        exact lexical_of_scanned pieces (writeText first) _ rfl rfl rfl rfl hscan
          (not_not.mp hend) _ rfl hcount.symm
  · have hparts := compileFragments_written pieces [mark, '"'] first fun piece hpiece =>
      htrim _ _ (hcompile piece hpiece)
    rw [compileInterpolated, fragments_written hmark fun piece hpiece =>
      ⟨h piece hpiece, (hpieces piece hpiece).2⟩]
    rw [writeBody, List.append_assoc]
    exact hparts
  · refine parseString_escape hquote (.head _) (by simp) (fun c hc => ?_) text
    rcases hquote with rfl | rfl <;> simp only [List.mem_cons, List.not_mem_nil, or_false] at hc <;>
      rcases hc with rfl | rfl <;> decide

/-- A text with a brace, and a brace in a string of an expression with space around it. -/
theorem interpolated_comes_back_brace :
    compileInterpolated (fun text =>
        if trim text = ['\'', '}', '\''] then .ok 7 else .error ⟨.parse, "no expression"⟩)
      ['s', '"', 'a', '\\', '{', '{', ' ', '\'', '}', '\'', ' ', '}', '"'] =
        .ok [.text ['a', '{'], .expression 7] := by
  have hstring : Lexical ScannedLine ['\'', '}', '\'', ' '] :=
    .token (@Token.quoted _ _ _ _ ['}'] _ .string (.plain (by decide) (by decide) .nil) (by decide))
      (.token (.plain (by decide)) .nil)
  have hback := (interpolated_comes_back (.inl rfl) ['a', '{'] [⟨[' ', '\'', '}', '\'', ' '], []⟩]
    (List.forall_mem_singleton.mpr ⟨by decide, by decide⟩)).2.1.mpr
      (List.forall_mem_singleton.mpr (.token (.plain (by decide)) hstring))
  refine hback Nat _ (fun _ => 7) (fun source expression h => ?_)
    (List.forall_mem_singleton.mpr (by decide))
  split at h
  next hsource =>
    rw [hsource]
    exact h
  next => cases h

/-- A line comment that a carriage return ends takes the brace behind it. -/
theorem interpolated_carriage_return :
    Lexical (LineOf newlines) ['1', '/', '/', 'a', '\r'] ∧
      compileInterpolated (fun text =>
          if trim text = ['1', '/', '/', 'a'] then .ok 1 else .error ⟨.parse, "no expression"⟩)
        ['s', '"', '{', '1', '/', '/', 'a', '\r', '}', '"'] =
          .error ⟨.semantic, "string interpolation contains an unclosed '\x7b'"⟩ := by
  constructor
  · have hline : Token (LineOf newlines) ['/', '/', 'a', '\r'] none :=
      .comment ⟨['a'], ['\r'], by decide, rfl, List.forall_mem_singleton.mpr (by decide)⟩
    exact .token (.plain (by decide)) (.token hline .nil)
  · have hscan : scanFragments ['{', '1', '/', '/', 'a', '\r', '}'] 2
        ['{', '1', '/', '/', 'a', '\r', '}'] {} =
          .ok { index := 7, start := some 1, depth := 1, state := .lineComment } := by
      simp [scanFragments, scanRound, scanOuterText, scanExpression, scanQuotedOrComment, ok_bind]
    have hfragments :
        interpolationFragments ['s', '"', '{', '1', '/', '/', 'a', '\r', '}', '"'] =
          .error "string interpolation contains an unclosed '\x7b'" := by
      rw [interpolationFragments, interpolationBody]
      simp [hscan, ok_bind]
    rw [compileInterpolated, hfragments]
    rfl

end Lithograph.Query.Expression
