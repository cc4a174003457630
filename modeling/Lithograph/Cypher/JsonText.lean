/-
  File:      Lithograph/Cypher/JsonText.lean
  Subject:   The text of JSON, without white space (`serde_json::to_string`).

  The shortest text of a float is a parameter.

  * `compact_inj`: JSON without numbers is told by its text, whatever follows.
-/
import Lithograph.Cypher.Json
import Lithograph.Library.PrefixFree
import Mathlib.Tactic.IntervalCases

namespace Lithograph.Cypher

open Library Storage

/-! ## 1. Strings -/

/-- The quotation mark. -/
def quoteMark : Char := Char.ofNat 34

def backslash : Char := Char.ofNat 92

/-- What is written behind a backslash for a character that is not written itself. -/
def escapeCode (n : Nat) : Option Text :=
  if n = 8 then some ['b']
  else if n = 9 then some ['t']
  else if n = 10 then some ['n']
  else if n = 12 then some ['f']
  else if n = 13 then some ['r']
  else if n = 34 then some [quoteMark]
  else if n = 92 then some [backslash]
  else if n < 32 then some ['u', '0', '0', hexDigit (n / 16), hexDigit (n % 16)]
  else none

/-- `format_escaped_str_contents`, of one character. -/
def escapeChar (c : Char) : Text :=
  match escapeCode c.toNat with
  | some code => backslash :: code
  | none => [c]

/-- `format_escaped_str`. -/
def stringText (text : Text) : Text := quoteMark :: untilStop escapeChar quoteMark text

/-- The character a code stands for, and what follows it. -/
def readCode : Text → Option (Nat × Text)
  | 'u' :: _ :: _ :: high :: low :: rest =>
    match hex high, hex low with
    | .ok a, .ok b => some (a * 16 + b, rest)
    | _, _ => none
  | 'b' :: rest => some (8, rest)
  | 't' :: rest => some (9, rest)
  | 'n' :: rest => some (10, rest)
  | 'f' :: rest => some (12, rest)
  | 'r' :: rest => some (13, rest)
  | c :: rest => some (c.toNat, rest)
  | [] => none

theorem escapeCode_some {n : Nat} {code : Text} (h : escapeCode n = some code) :
    n < 32 ∨ n = 34 ∨ n = 92 := by
  by_contra hnot
  unfold escapeCode at h
  simp (disch := omega) only [if_neg] at h
  cases h

/-- **A code is read back.** -/
theorem readCode_escapeCode {n : Nat} {code : Text} (h : escapeCode n = some code) (r : Text) :
    readCode (code ++ r) = some (n, r) := by
  rcases escapeCode_some h with hn | rfl | rfl
  · interval_cases n <;> (cases h; rfl)
  · cases h
    rfl
  · cases h
    rfl

theorem escapeChar_ne_nil (c : Char) : (escapeChar c).head? ≠ none := by
  unfold escapeChar
  cases escapeCode c.toNat <;> exact Option.some_ne_none _

theorem escapeChar_ne_quoteMark (c : Char) : (escapeChar c).head? ≠ some quoteMark := by
  unfold escapeChar
  cases hcode : escapeCode c.toNat with
  | some code => exact fun h => absurd (Option.some.inj h) (by decide)
  | none =>
    intro h
    have hc : c = quoteMark := Option.some.inj h
    rw [hc] at hcode
    cases hcode

theorem escapeChar_prefixFree : PrefixFree escapeChar := by
  intro c d r s h
  have hmark : ∀ c : Char, escapeCode c.toNat = none → c ≠ backslash := by
    intro c hnone hc
    rw [hc] at hnone
    cases hnone
  unfold escapeChar at h
  cases hc : escapeCode c.toNat with
  | none =>
    cases hd : escapeCode d.toNat with
    | none =>
      rw [hc, hd] at h
      exact List.cons.inj h
    | some code =>
      rw [hc, hd] at h
      exact absurd (List.cons.inj h).1 (hmark c hc)
  | some code =>
    cases hd : escapeCode d.toNat with
    | none =>
      rw [hc, hd] at h
      exact absurd (List.cons.inj h).1.symm (hmark d hd)
    | some code' =>
      rw [hc, hd] at h
      have hcodes : code ++ r = code' ++ s := (List.cons.inj h).2
      have hread := congrArg readCode hcodes
      rw [readCode_escapeCode hc, readCode_escapeCode hd] at hread
      obtain ⟨hchar, hrest⟩ := Prod.mk.inj (Option.some.inj hread)
      exact ⟨Char.toNat_inj.mp hchar, hrest⟩

/-- **A string ends where it is told to end.** -/
theorem stringText_prefixFree : PrefixFree stringText := by
  intro text text' r s h
  exact escapeChar_prefixFree.stopped escapeChar_ne_nil escapeChar_ne_quoteMark _ _ _ _
    (List.cons.inj h).2

/-! ## 2. Values -/

section Writing

variable (floatText : F64 → Text)

mutual

/-- `to_string`. -/
def compact : Json → Text
  | .null => "null".toList
  | .bool value => if value then "true".toList else "false".toList
  | .int value => integerText value
  | .float value => floatText value
  | .string text => stringText text
  | .array [] => "[]".toList
  | .array (item :: rest) => '[' :: (compact item ++ compactItems rest)
  | .object [] => "\x7b\x7d".toList
  | .object ((key, item) :: rest) =>
    Char.ofNat 123 :: (stringText key ++ ':' :: (compact item ++ compactFields rest))

/-- The items behind the first one. -/
def compactItems : List Json → Text
  | [] => [']']
  | item :: rest => ',' :: (compact item ++ compactItems rest)

/-- The fields behind the first one. -/
def compactFields : List (Text × Json) → Text
  | [] => [Char.ofNat 125]
  | (key, item) :: rest => ',' :: (stringText key ++ ':' :: (compact item ++ compactFields rest))

end

end Writing

mutual

/-- There are no numbers in it. -/
def NumberFree : Json → Prop
  | .int _ => False
  | .float _ => False
  | .array items => ItemsNumberFree items
  | .object fields => FieldsNumberFree fields
  | _ => True

def ItemsNumberFree : List Json → Prop
  | [] => True
  | item :: rest => NumberFree item ∧ ItemsNumberFree rest

def FieldsNumberFree : List (Text × Json) → Prop
  | [] => True
  | (_, item) :: rest => NumberFree item ∧ FieldsNumberFree rest

end

variable {floatText : F64 → Text}

/-- The first character of a text. -/
def leading : Json → Char
  | .null => 'n'
  | .bool value => if value then 't' else 'f'
  | .string _ => quoteMark
  | .array _ => '['
  | .object _ => Char.ofNat 123
  | _ => '0'

theorem compact_leading : ∀ json, NumberFree json →
    ∃ rest, compact floatText json = leading json :: rest
  | .null, _ => ⟨_, rfl⟩
  | .bool true, _ => ⟨_, rfl⟩
  | .bool false, _ => ⟨_, rfl⟩
  | .int _, h => h.elim
  | .float _, h => h.elim
  | .string _, _ => ⟨_, rfl⟩
  | .array [], _ => ⟨_, rfl⟩
  | .array (_ :: _), _ => ⟨_, rfl⟩
  | .object [], _ => ⟨_, rfl⟩
  | .object (_ :: _), _ => ⟨_, rfl⟩

theorem compact_ne {json : Json} (h : NumberFree json) {c : Char} (hc : leading json ≠ c)
    (r s : Text) : compact floatText json ++ r ≠ c :: s := by
  obtain ⟨rest, hrest⟩ := @compact_leading floatText json h
  rw [hrest]
  exact fun heq => hc (List.cons.inj heq).1

variable {r s : Text}

/-- The leading character tells the kind. -/
theorem compact_leads {json json' : Json} (h : NumberFree json) (h' : NumberFree json')
    (heq : compact floatText json ++ r = compact floatText json' ++ s) :
    leading json = leading json' := by
  obtain ⟨rest, hrest⟩ := @compact_leading floatText json h
  obtain ⟨rest', hrest'⟩ := @compact_leading floatText json' h'
  rw [hrest, hrest'] at heq
  exact (List.cons.inj heq).1

theorem leading_ne (json : Json) : leading json ≠ ']' := by
  cases json with
  | bool value => cases value <;> decide
  | _ => simp [leading, quoteMark]

theorem array_items {items items' : List Json} (hfree : ItemsNumberFree items)
    (hfree' : ItemsNumberFree items')
    (h : compact floatText (.array items) ++ r = compact floatText (.array items') ++ s) :
    compactItems floatText items ++ r = compactItems floatText items' ++ s := by
  cases items with
  | nil =>
    cases items' with
    | nil => exact congrArg (']' :: ·) (List.append_cancel_left h)
    | cons item rest =>
      have htail : compact floatText item ++ (compactItems floatText rest ++ s) = ']' :: r := by
        rw [← List.append_assoc]
        exact (List.cons.inj h).2.symm
      exact absurd htail (compact_ne hfree'.1 (leading_ne item) _ _)
  | cons item rest =>
    cases items' with
    | nil =>
      have htail : compact floatText item ++ (compactItems floatText rest ++ r) = ']' :: s := by
        rw [← List.append_assoc]
        exact (List.cons.inj h).2
      exact absurd htail (compact_ne hfree.1 (leading_ne item) _ _)
    | cons item' rest' => exact congrArg (',' :: ·) (List.cons.inj h).2

theorem object_fields {fields fields' : List (Text × Json)}
    (h : compact floatText (.object fields) ++ r = compact floatText (.object fields') ++ s) :
    compactFields floatText fields ++ r = compactFields floatText fields' ++ s := by
  match fields, fields' with
  | [], [] => exact congrArg (Char.ofNat 125 :: ·) (List.append_cancel_left h)
  | [], (_, _) :: _ => exact absurd (List.cons.inj (List.cons.inj h).2).1 (by decide)
  | (_, _) :: _, [] => exact absurd (List.cons.inj (List.cons.inj h).2).1 (by decide)
  | (_, _) :: _, (_, _) :: _ => exact congrArg (',' :: ·) (List.cons.inj h).2

theorem field_append (name value others r : Text) :
    name ++ ':' :: (value ++ others) ++ r = name ++ ':' :: (value ++ (others ++ r)) := by
  rw [List.append_assoc, List.cons_append, List.append_assoc]

mutual

/-- **JSON without numbers is told by its text.** -/
theorem compact_inj : ∀ {json json' : Json} {r s : Text}, NumberFree json → NumberFree json' →
    compact floatText json ++ r = compact floatText json' ++ s → json = json' ∧ r = s
  | .null, json', r, s, hfree, hfree', h => by
    have hlead := compact_leads hfree hfree' h
    cases json' with
    | null => exact ⟨rfl, List.append_cancel_left h⟩
    | bool value => cases value <;> cases hlead
    | _ => cases hlead
  | .bool value, json', r, s, hfree, hfree', h => by
    have hlead := compact_leads hfree hfree' h
    cases json' with
    | bool value' =>
      cases value <;> cases value'
      · exact ⟨rfl, List.append_cancel_left h⟩
      · cases hlead
      · cases hlead
      · exact ⟨rfl, List.append_cancel_left h⟩
    | _ => cases value <;> cases hlead
  | .int _, _, _, _, hfree, _, _ => hfree.elim
  | .float _, _, _, _, hfree, _, _ => hfree.elim
  | .string text, json', r, s, hfree, hfree', h => by
    have hlead := compact_leads hfree hfree' h
    cases json' with
    | string text' =>
      obtain ⟨htext, hrest⟩ := stringText_prefixFree _ _ _ _ h
      exact ⟨by rw [htext], hrest⟩
    | bool value => cases value <;> cases hlead
    | _ => cases hlead
  | .array items, json', r, s, hfree, hfree', h => by
    have hlead := compact_leads hfree hfree' h
    cases json' with
    | array items' =>
      obtain ⟨hitems, hrest⟩ := compactItems_inj hfree hfree' (array_items hfree hfree' h)
      exact ⟨by rw [hitems], hrest⟩
    | bool value => cases value <;> cases hlead
    | _ => cases hlead
  | .object fields, json', r, s, hfree, hfree', h => by
    have hlead := compact_leads hfree hfree' h
    cases json' with
    | object fields' =>
      obtain ⟨hfields, hrest⟩ := compactFields_inj hfree hfree' (object_fields h)
      exact ⟨by rw [hfields], hrest⟩
    | bool value => cases value <;> cases hlead
    | _ => cases hlead

theorem compactItems_inj : ∀ {items items' : List Json} {r s : Text}, ItemsNumberFree items →
    ItemsNumberFree items' →
    compactItems floatText items ++ r = compactItems floatText items' ++ s → items = items' ∧ r = s
  | [], [], _, _, _, _, h => ⟨rfl, (List.cons.inj h).2⟩
  | [], _ :: _, _, _, _, _, h => absurd (List.cons.inj h).1 (by decide)
  | _ :: _, [], _, _, _, _, h => absurd (List.cons.inj h).1 (by decide)
  | item :: rest, item' :: rest', r, s, hfree, hfree', h => by
    have htail : compact floatText item ++ (compactItems floatText rest ++ r) =
        compact floatText item' ++ (compactItems floatText rest' ++ s) := by
      rw [← List.append_assoc, ← List.append_assoc]
      exact (List.cons.inj h).2
    obtain ⟨hitem, htail⟩ := compact_inj hfree.1 hfree'.1 htail
    obtain ⟨hrest, hend⟩ := compactItems_inj hfree.2 hfree'.2 htail
    exact ⟨by rw [hitem, hrest], hend⟩

theorem compactFields_inj : ∀ {fields fields' : List (Text × Json)} {r s : Text},
    FieldsNumberFree fields → FieldsNumberFree fields' →
    compactFields floatText fields ++ r = compactFields floatText fields' ++ s →
      fields = fields' ∧ r = s
  | [], [], _, _, _, _, h => ⟨rfl, (List.cons.inj h).2⟩
  | [], (_, _) :: _, _, _, _, _, h => absurd (List.cons.inj h).1 (by decide)
  | (_, _) :: _, [], _, _, _, _, h => absurd (List.cons.inj h).1 (by decide)
  | (key, item) :: rest, (key', item') :: rest', r, s, hfree, hfree', h => by
    have htail : stringText key ++ ':' :: (compact floatText item ++
        (compactFields floatText rest ++ r)) = stringText key' ++ ':' :: (compact floatText item' ++
        (compactFields floatText rest' ++ s)) := by
      rw [← field_append, ← field_append]
      exact (List.cons.inj h).2
    obtain ⟨hkey, htail⟩ := stringText_prefixFree _ _ _ _ htail
    obtain ⟨hitem, htail⟩ := compact_inj hfree.1 hfree'.1 (List.cons.inj htail).2
    obtain ⟨hrest, hend⟩ := compactFields_inj hfree.2 hfree'.2 htail
    exact ⟨by rw [hkey, hitem, hrest], hend⟩

end

end Lithograph.Cypher
