/-
  File:      Lithograph/Library/Utf8.lean
  Subject:   The UTF-8 bytes of a text.

  * **`encode_inj`**: no two texts have the same bytes.
-/
import Mathlib.Data.List.Basic

namespace Lithograph.Library

/-- The bytes of a text. -/
def encode (text : List Char) : List UInt8 := text.flatMap String.utf8EncodeChar

theorem encode_cons (c : Char) (text : List Char) :
    encode (c :: text) = String.utf8EncodeChar c ++ encode text := List.flatMap_cons

theorem encodeChar_ne_nil (c : Char) : String.utf8EncodeChar c ≠ [] := by
  intro hnil
  have hlength := String.length_utf8EncodeChar c
  rw [hnil] at hlength
  exact absurd hlength.symm (Nat.ne_of_gt c.utf8Size_pos)

theorem encodeChar_inj {c d : Char} {x y : List UInt8}
    (h : String.utf8EncodeChar c ++ x = String.utf8EncodeChar d ++ y) : c = d ∧ x = y := by
  have hchar : c = d := by
    have hc := ByteArray.utf8DecodeChar?_utf8EncodeChar_append (b := x.toByteArray) (c := c)
    have hd := ByteArray.utf8DecodeChar?_utf8EncodeChar_append (b := y.toByteArray) (c := d)
    rw [← List.toByteArray_append, h, List.toByteArray_append, hd] at hc
    exact (Option.some.inj hc).symm
  rw [hchar] at h
  exact ⟨hchar, List.append_cancel_left h⟩

theorem encode_inj : ∀ {a b : List Char}, encode a = encode b → a = b
  | [], [], _ => rfl
  | [], d :: b, h => by
    exact absurd (List.append_eq_nil_iff.mp h.symm).1 (encodeChar_ne_nil d)
  | c :: a, [], h => by
    exact absurd (List.append_eq_nil_iff.mp h).1 (encodeChar_ne_nil c)
  | c :: a, d :: b, h => by
    obtain ⟨rfl, hrest⟩ := encodeChar_inj h
    rw [encode_inj hrest]

theorem encode_rest : ∀ {a b : List Char} {x : List UInt8}, encode a ++ x = encode b →
    ∃ c, x = encode c
  | [], b, _, h => ⟨b, h⟩
  | c :: a, [], x, h => by
    rw [encode_cons, List.append_assoc] at h
    exact absurd (List.append_eq_nil_iff.mp h).1 (encodeChar_ne_nil c)
  | c :: a, d :: b, x, h => by
    rw [encode_cons, encode_cons, List.append_assoc] at h
    exact encode_rest (encodeChar_inj h).2

end Lithograph.Library
