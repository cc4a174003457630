/-
  File:      Lithograph/Library/Lines.lean
  Subject:   Cutting a sequence after the first stop.

  * **`cutLine_encode`**: the first line of the bytes is the bytes of the first line.
-/
import Lithograph.Library.Utf8

namespace Lithograph.Library

variable {A : Type} [DecidableEq A] {stop : A}

/-- The first line with its stop, and what follows it. -/
def cutLine (stop : A) : List A → List A × List A
  | [] => ([], [])
  | a :: rest =>
    if a = stop then ([a], rest) else (a :: (cutLine stop rest).1, (cutLine stop rest).2)

theorem cutLine_stop (rest : List A) : cutLine stop (stop :: rest) = ([stop], rest) := if_pos rfl

theorem cutLine_cons {a : A} (h : a ≠ stop) (rest : List A) :
    cutLine stop (a :: rest) = (a :: (cutLine stop rest).1, (cutLine stop rest).2) := if_neg h

theorem cutLine_append (stop : A) : ∀ l : List A, (cutLine stop l).1 ++ (cutLine stop l).2 = l
  | [] => rfl
  | a :: rest => by
    by_cases h : a = stop
    · subst h
      rw [cutLine_stop]
      rfl
    · rw [cutLine_cons h, List.cons_append, cutLine_append stop rest]

theorem cutLine_ne_nil : ∀ {l : List A}, l ≠ [] → (cutLine stop l).1 ≠ []
  | [], h => absurd rfl h
  | a :: rest, _ => by
    by_cases h : a = stop
    · subst h
      rw [cutLine_stop]
      exact List.cons_ne_nil _ _
    · rw [cutLine_cons h]
      exact List.cons_ne_nil _ _

variable {l : List A}

theorem cutLine_shorter (h : l ≠ []) : (cutLine stop l).2.length < l.length := by
  have hsum := congrArg List.length (cutLine_append stop l)
  have hne : (cutLine stop l).1 ≠ [] := cutLine_ne_nil h
  have hpos := List.length_pos_of_ne_nil hne
  rw [List.length_append] at hsum
  omega

theorem cutLine_missing : ∀ {l : List A}, (∀ a ∈ l, a ≠ stop) → ∀ rest : List A,
    cutLine stop (l ++ rest) = (l ++ (cutLine stop rest).1, (cutLine stop rest).2)
  | [], _, _ => rfl
  | a :: l, h, rest => by
    rw [List.cons_append, cutLine_cons (h a List.mem_cons_self),
      cutLine_missing fun b hb => h b (.tail _ hb)]
    rfl

theorem cutLine_found (h : ∀ a ∈ l, a ≠ stop) (rest : List A) :
    cutLine stop (l ++ stop :: rest) = (l ++ [stop], rest) := by
  rw [cutLine_missing h, cutLine_stop]

theorem cutLine_cases (stop : A) : ∀ l : List A,
    (∃ first, (∀ a ∈ first, a ≠ stop) ∧ (cutLine stop l).1 = first ++ [stop]) ∨
      (∀ a ∈ l, a ≠ stop) ∧ cutLine stop l = (l, [])
  | [] => .inr ⟨fun _ h => absurd h List.not_mem_nil, rfl⟩
  | a :: rest => by
    by_cases h : a = stop
    · subst h
      rw [cutLine_stop]
      exact .inl ⟨[], fun _ h => absurd h List.not_mem_nil, rfl⟩
    · rw [cutLine_cons h]
      obtain ⟨first, hfirst, hline⟩ | ⟨hnone, hall⟩ := cutLine_cases stop rest
      · refine .inl ⟨a :: first, fun b hb => ?_, by rw [hline]; rfl⟩
        obtain rfl | hb := List.mem_cons.mp hb
        · exact h
        · exact hfirst b hb
      · refine .inr ⟨fun b hb => ?_, by rw [hall]⟩
        obtain rfl | hb := List.mem_cons.mp hb
        · exact h
        · exact hnone b hb

theorem cutLine_long (h : l.head? ≠ some stop) :
    (cutLine stop l).2 = [] ∨ 2 ≤ (cutLine stop l).1.length := by
  obtain ⟨first, _, hline⟩ | ⟨_, hall⟩ := cutLine_cases stop l
  · rw [hline, List.length_append, List.length_singleton]
    cases first with
    | nil =>
      have hsplit := cutLine_append stop l
      rw [hline] at hsplit
      exact absurd (by rw [← hsplit]; rfl) h
    | cons a first =>
      rw [List.length_cons]
      exact .inr (by omega)
  · rw [hall]
    exact .inl rfl

theorem mem_encodeChar_lineFeed {c : Char} (h : 10 ∈ String.utf8EncodeChar c) : c = '\n' := by
  obtain ⟨i, hi, hget⟩ := List.mem_iff_getElem.mp h
  have hfirst : (String.utf8EncodeChar c)[i].IsUTF8FirstByte := by
    rw [hget]
    decide
  rw [UInt8.isUTF8FirstByte_getElem_utf8EncodeChar] at hfirst
  subst hfirst
  cases hbytes : String.utf8EncodeChar c with
  | nil => exact absurd hbytes (encodeChar_ne_nil c)
  | cons b rest =>
    have hten : b = 10 := by
      simp only [hbytes, List.getElem_cons_zero] at hget
      exact hget
    have hsame : String.utf8EncodeChar c ++ [] = String.utf8EncodeChar '\n' ++ rest := by
      rw [List.append_nil, hbytes, hten]
      rfl
    exact (encodeChar_inj hsame).1

/-- **The first line of the bytes is the bytes of the first line.** -/
theorem cutLine_encode : ∀ text : List Char,
    cutLine 10 (encode text) = (encode (cutLine '\n' text).1, encode (cutLine '\n' text).2)
  | [] => rfl
  | c :: text => by
    rw [encode_cons]
    by_cases h : c = '\n'
    · subst h
      exact cutLine_stop _
    · have hnone : ∀ b ∈ String.utf8EncodeChar c, b ≠ 10 := by
        intro b hb heq
        subst heq
        exact h (mem_encodeChar_lineFeed hb)
      rw [cutLine_missing hnone, cutLine_encode text, cutLine_cons h, encode_cons]

/-- The text that some bytes encode, where they encode one. -/
def decodeUtf8 (bytes : List UInt8) : Option (List Char) :=
  bytes.toByteArray.utf8Decode?.map Array.toList

theorem decodeUtf8_encode (text : List Char) : decodeUtf8 (encode text) = some text := by
  have hbytes : (encode text).toByteArray = text.utf8Encode := rfl
  unfold decodeUtf8
  rw [hbytes, List.utf8Decode?_utf8Encode]
  rfl

end Lithograph.Library
