/-
  File:      Lithograph/Storage/Utf8Chunks.lean
  Subject:   A text that is read in chunks (`storage/value.rs`).

  A character that a chunk ends in is left to the next chunk.

  * **`utf8CheckedBy_told`**: in chunks the same bytes are a text as at once.
-/
import Lithograph.Library.Utf8
import Lithograph.Storage.ValueRoundTrip
import Mathlib.Data.Nat.Find

namespace Lithograph.Storage

open Library

/-! ## 1. `str::from_utf8` -/

/-- Whether the second byte of a character can stand behind the first one. -/
def fitsSecond (first second : UInt8) : Bool :=
  if first.toNat = 0xE0 then 0xA0 ≤ second.toNat && second.toNat ≤ 0xBF
  else if first.toNat = 0xED then 0x80 ≤ second.toNat && second.toNat ≤ 0x9F
  else if first.toNat = 0xF0 then 0x90 ≤ second.toNat && second.toNat ≤ 0xBF
  else if first.toNat = 0xF4 then 0x80 ≤ second.toNat && second.toNat ≤ 0x8F
  else 0x80 ≤ second.toNat && second.toNat ≤ 0xBF

/-- Whether bytes that are no text end inside a character: `error_len` is none. -/
def endsInside : Bytes → Bool
  | [a] => 0xC2 ≤ a.toNat && a.toNat ≤ 0xF4
  | [a, b] => 0xE0 ≤ a.toNat && a.toNat ≤ 0xF4 && fitsSecond a b
  | [a, b, c] => 0xF0 ≤ a.toNat && a.toNat ≤ 0xF4 && fitsSecond a b && 0x80 ≤ c.toNat &&
      c.toNat ≤ 0xBF
  | _ => false

structure Utf8Error where
  validUpTo : Nat
  incomplete : Bool

/-- The greatest index up to which the bytes are a text. -/
def validUpTo (bytes : Bytes) : Nat :=
  Nat.findGreatest (fun k => (bytes.take k).toByteArray.validateUTF8 = true) bytes.length

def fromUtf8 (bytes : Bytes) : Except Utf8Error Text :=
  match bytes.toByteArray.utf8Decode? with
  | some chars => .ok chars.toList
  | none => .error ⟨validUpTo bytes, endsInside (bytes.drop (validUpTo bytes))⟩

variable {bytes chunk rest : Bytes} {text valid : Text}

theorem endsInside_length (h : endsInside bytes = true) : bytes.length ≤ 3 := by
  unfold endsInside at h
  split at h <;> simp at h ⊢

theorem endsInside_begins {c : Char} {front back : Bytes}
    (h : String.utf8EncodeChar c = front ++ back) (hfront : front ≠ []) (hback : back ≠ []) :
    endsInside front = true := by
  have hvalid : c.val.toNat < 0xd800 ∨ 0xdfff < c.val.toNat ∧ c.val.toNat < 0x110000 := c.valid
  have htake : front = (String.utf8EncodeChar c).take front.length := by
    rw [h, List.take_left]
  have hlow := List.length_pos_of_ne_nil hfront
  have hhigh : front.length < (String.utf8EncodeChar c).length := by
    rw [h, List.length_append]
    have := List.length_pos_of_ne_nil hback
    omega
  rw [htake]
  generalize front.length = n at hlow hhigh
  unfold String.utf8EncodeChar at hhigh ⊢
  dsimp only at hhigh ⊢
  generalize c.val.toNat = v at hhigh hvalid ⊢
  split
  · rw [if_pos ‹_›] at hhigh
    exact absurd hhigh (by simp; omega)
  · rw [if_neg ‹_›] at hhigh
    split
    · rw [if_pos ‹_›] at hhigh
      obtain rfl : n = 1 := by simp at hhigh; omega
      simp [endsInside]
      omega
    · rw [if_neg ‹_›] at hhigh
      split
      · rw [if_pos ‹_›] at hhigh
        obtain rfl | rfl : n = 1 ∨ n = 2 := by simp at hhigh; omega
        · simp [endsInside]
          omega
        · simp [endsInside, fitsSecond]
          split_ifs <;> omega
      · rw [if_neg ‹_›] at hhigh
        obtain rfl | rfl | rfl : n = 1 ∨ n = 2 ∨ n = 3 := by simp at hhigh; omega
        · simp [endsInside]
          omega
        · simp [endsInside, fitsSecond]
          split_ifs <;> omega
        · simp [endsInside, fitsSecond]
          split_ifs <;> omega

theorem validateUTF8_iff : bytes.toByteArray.validateUTF8 = true ↔ ∃ t, bytes = Text.utf8 t := by
  rw [ByteArray.validateUTF8_eq_true_iff]
  refine ⟨fun h => ?_, fun h => ?_⟩
  · obtain ⟨t, ht⟩ := h
    exact ⟨t, List.toByteArray_inj.mp ht⟩
  · obtain ⟨t, rfl⟩ := h
    exact ⟨t, rfl⟩

theorem fromUtf8_ok : fromUtf8 bytes = .ok text ↔ bytes = Text.utf8 text := by
  have hback : ∀ t : Text, fromUtf8 (Text.utf8 t) = .ok t := by
    intro t
    have hdecode : (Text.utf8 t).toByteArray.utf8Decode? = some t.toArray :=
      List.utf8Decode?_utf8Encode
    unfold fromUtf8
    rw [hdecode]
  refine ⟨fun h => ?_, fun h => h ▸ hback text⟩
  have hvalid : bytes.toByteArray.validateUTF8 = true := by
    rw [← ByteArray.isSome_utf8Decode?_eq_validateUTF8]
    unfold fromUtf8 at h
    split at h
    · rename_i chars hchars
      rw [hchars]
      rfl
    · cases h
  obtain ⟨t, rfl⟩ := validateUTF8_iff.mp hvalid
  rw [hback t] at h
  rw [Except.ok.inj h]

/-- **What is refused** is a text and bytes that begin no character. -/
theorem fromUtf8_error {error : Utf8Error} (h : fromUtf8 bytes = .error error) :
    ∃ t bad, bytes = Text.utf8 t ++ bad ∧ bytes.take error.validUpTo = Text.utf8 t ∧
      error.incomplete = endsInside bad ∧
      ∀ more, (error.incomplete = true → more = []) → ∀ u, bytes ++ more ≠ Text.utf8 u := by
  have hrefused : ∀ t, bytes ≠ Text.utf8 t := by
    intro t ht
    rw [fromUtf8_ok.mpr ht] at h
    cases h
  have herror : error = ⟨validUpTo bytes, endsInside (bytes.drop (validUpTo bytes))⟩ := by
    unfold fromUtf8 at h
    split at h
    · cases h
    · exact (Except.error.inj h).symm
  subst herror
  obtain ⟨t, ht⟩ : ∃ t, bytes.take (validUpTo bytes) = Text.utf8 t :=
    validateUTF8_iff.mp (Nat.findGreatest_spec (P := fun k =>
      (bytes.take k).toByteArray.validateUTF8 = true) (Nat.zero_le _)
        (validateUTF8_iff.mpr ⟨[], rfl⟩))
  have hsplit : bytes = Text.utf8 t ++ bytes.drop (validUpTo bytes) := by
    rw [← ht, List.take_append_drop]
  refine ⟨t, bytes.drop (validUpTo bytes), hsplit, ht, rfl, fun more hmore u hu => ?_⟩
  generalize hbad : bytes.drop (validUpTo bytes) = bad at hsplit hmore
  rw [hsplit, List.append_assoc] at hu
  obtain ⟨rest, hrest⟩ := encode_rest hu
  have hbehind : bad ≠ [] := by
    intro hnil
    rw [hnil, List.append_nil] at hsplit
    exact hrefused t hsplit
  -- a longer beginning is no text
  have hlongest : ∀ c z, bad ≠ String.utf8EncodeChar c ++ z := by
    intro c z hc
    have hone : Text.utf8 (t ++ [c]) = Text.utf8 t ++ String.utf8EncodeChar c := by
      simp [Text.utf8]
    have hlonger : bytes = Text.utf8 (t ++ [c]) ++ z := by
      rw [hone, List.append_assoc, ← hc, ← hsplit]
    have hle : (Text.utf8 (t ++ [c])).length ≤ validUpTo bytes :=
      Nat.le_findGreatest (by rw [hlonger, List.length_append]; omega)
        (validateUTF8_iff.mpr ⟨t ++ [c], by rw [hlonger, List.take_left]⟩)
    have hpos := List.length_pos_of_ne_nil (encodeChar_ne_nil c)
    have hlength := congrArg List.length ht
    have hin : validUpTo bytes ≤ bytes.length := Nat.findGreatest_le _
    rw [List.length_take] at hlength
    rw [hone, List.length_append] at hle
    omega
  cases rest with
  | nil => exact hbehind (List.append_eq_nil_iff.mp hrest).1
  | cons c rest =>
    rcases List.append_eq_append_iff.mp hrest with ⟨z, hc, hz⟩ | ⟨z, hc, hz⟩
    · by_cases hwhole : z = []
      · rw [hwhole, List.append_nil] at hc
        exact hlongest c [] (by rw [hc, List.append_nil])
      · have hinside := endsInside_begins hc hbehind hwhole
        rw [hmore hinside] at hz
        exact hwhole (List.append_eq_nil_iff.mp hz.symm).1
    · exact hlongest c z hc

/-! ## 2. The chunks -/

/-- A chunk has room for a character; `utf8_checked` takes chunks of 64 KiB. -/
abbrev ChunkSize := { size : Nat // 3 < size }

def invalidUtf8 : StorageError := .corrupt "VALUE string is not valid UTF-8"

/-- The text of a chunk; behind a chunk that is not the last more bytes follow. -/
def chunkText (last : Bool) (chunk : Bytes) : StorageResult Text :=
  match fromUtf8 chunk with
  | .ok value => .ok value
  | .error error =>
    if error.incomplete && !last then
      match fromUtf8 (chunk.take error.validUpTo) with
      | .ok value => .ok value
      | .error _ => .error invalidUtf8
    else .error invalidUtf8

theorem chunkText_ok {last : Bool} (h : chunkText last chunk = .ok valid) :
    ∃ tail, chunk = Text.utf8 valid ++ tail ∧ (tail = [] ∨ last = false ∧ tail.length ≤ 3) := by
  unfold chunkText at h
  split at h
  · rename_i value hvalue
    cases h
    exact ⟨[], by rw [List.append_nil, fromUtf8_ok.mp hvalue], .inl rfl⟩
  · rename_i error herror
    obtain ⟨t, bad, hchunk, htake, hinside, _⟩ := fromUtf8_error herror
    split at h
    · rename_i hlast
      rw [htake, fromUtf8_ok.mpr rfl] at h
      cases h
      rw [Bool.and_eq_true, hinside, Bool.not_eq_true'] at hlast
      exact ⟨bad, hchunk, .inr ⟨hlast.2, endsInside_length hlast.1⟩⟩
    · cases h

theorem chunkText_error {last : Bool} {e : StorageError} (h : chunkText last chunk = .error e) :
    e = invalidUtf8 ∧ ∀ more, (last = true → more = []) → ∀ t, chunk ++ more ≠ Text.utf8 t := by
  unfold chunkText at h
  split at h
  · cases h
  · rename_i error herror
    obtain ⟨t, bad, _, htake, _, hrefused⟩ := fromUtf8_error herror
    split at h
    · rw [htake, fromUtf8_ok.mpr rfl] at h
      cases h
    · rename_i hlast
      cases h
      refine ⟨rfl, fun more hmore => hrefused more fun hinside => hmore ?_⟩
      simpa [hinside] using hlast

/-- **Every round gets on.** -/
theorem chunkText_gets_on {size : ChunkSize} (hrest : rest ≠ [])
    (h : chunkText (rest.length ≤ size.1) (rest.take size.1) = .ok valid) :
    (rest.drop (Text.utf8 valid).length).length < rest.length := by
  obtain ⟨tail, hchunk, htail⟩ := chunkText_ok h
  have hpos := List.length_pos_of_ne_nil hrest
  have hlength := congrArg List.length hchunk
  rw [List.length_take, List.length_append] at hlength
  rw [List.length_drop]
  rcases htail with rfl | ⟨hmore, hshort⟩
  · rw [List.length_nil] at hlength
    omega
  · rw [decide_eq_false_iff_not] at hmore
    omega

/-- The loop, from `start` on; `check` says what each checkpoint says. -/
def readChunks (size : ChunkSize) (check : Nat → StorageResult Unit) (calls : Nat) (output : Text)
    (rest : Bytes) : StorageResult (Text × Nat) :=
  if _ : rest = [] then .ok (output, calls)
  else
    match check calls with
    | .error e => .error e
    | .ok _ =>
      match _ : chunkText (rest.length ≤ size.1) (rest.take size.1) with
      | .error e => .error e
      | .ok valid =>
        readChunks size check (calls + 1) (output ++ valid) (rest.drop (Text.utf8 valid).length)
termination_by rest.length
decreasing_by exact chunkText_gets_on ‹_› ‹_›

/-- `utf8_checked` with chunks of any size. -/
def utf8CheckedBy (size : ChunkSize) (check : Nat → StorageResult Unit) (bytes : Bytes) :
    StorageResult Text := do
  check 0
  let (output, calls) ← readChunks size check 1 [] bytes
  check calls
  pure output

/-- **What the loop says of the bytes from `start` on.** -/
theorem readChunks_told (size : ChunkSize) (check : Nat → StorageResult Unit) (calls : Nat)
    (output : Text) (rest : Bytes) :
    match readChunks size check calls output rest with
    | .ok (text, done) => done ≤ calls + rest.length ∧ ∃ t, text = output ++ t ∧ rest = Text.utf8 t
    | .error e => e = invalidUtf8 ∧ (∀ t, rest ≠ Text.utf8 t) ∨
        ∃ n, n < calls + rest.length ∧ check n = .error e := by
  fun_induction readChunks size check calls output rest with
  | case1 calls output =>
    exact ⟨Nat.le_refl _, [], (List.append_nil _).symm, rfl⟩
  | case2 calls output rest hrest e hcheck =>
    have hpos := List.length_pos_of_ne_nil hrest
    exact .inr ⟨calls, by omega, hcheck⟩
  | case3 calls output rest hrest _ _ e hchunk =>
    obtain ⟨he, hrefused⟩ := chunkText_error hchunk
    refine .inl ⟨he, fun t ht => hrefused (rest.drop size.1) (fun hlast => ?_) t ?_⟩
    · exact List.drop_eq_nil_of_le (of_decide_eq_true hlast)
    · rw [List.take_append_drop, ht]
  | case4 calls output rest hrest _ _ valid hchunk ih =>
    have hshorter := chunkText_gets_on hrest hchunk
    obtain ⟨tail, htail, _⟩ := chunkText_ok hchunk
    have hrest' : rest = Text.utf8 valid ++ (tail ++ rest.drop size.1) := by
      rw [← List.append_assoc, ← htail, List.take_append_drop]
    have hdrop : rest.drop (Text.utf8 valid).length = tail ++ rest.drop size.1 := by
      conv_lhs => rw [hrest', List.drop_left]
    rw [← hdrop] at hrest'
    generalize rest.drop (Text.utf8 valid).length = behind at ih hshorter hrest' ⊢
    generalize readChunks size check (calls + 1) (output ++ valid) behind = result at ih ⊢
    cases result with
    | ok done =>
      obtain ⟨hdone, t, htext, rfl⟩ := ih
      refine ⟨by omega, valid ++ t, by rw [htext, List.append_assoc], ?_⟩
      rw [hrest']
      simp [Text.utf8]
    | error e =>
      rcases ih with ⟨he, hrefused⟩ | ⟨n, hn, he⟩
      · refine .inl ⟨he, fun t ht => ?_⟩
        rw [hrest'] at ht
        obtain ⟨c, hc⟩ := encode_rest ht
        exact hrefused c hc
      · exact .inr ⟨n, by omega, he⟩

theorem utf8Checked_ok : utf8Checked bytes = .ok text ↔ bytes = Text.utf8 text := by
  rw [← fromUtf8_ok]
  unfold utf8Checked fromUtf8
  cases bytes.toByteArray.utf8Decode? <;> simp

theorem utf8Checked_error (h : ∀ t, bytes ≠ Text.utf8 t) :
    utf8Checked bytes = .error invalidUtf8 := by
  cases hread : utf8Checked bytes with
  | ok text => exact absurd (utf8Checked_ok.mp hread) (h text)
  | error e =>
    unfold utf8Checked at hread
    split at hread <;> cases hread
    rfl

/-- **In chunks the same bytes are a text as at once**, and the same text: it may only be that a
    checkpoint stops the loop, and it passes no more checkpoints than there are bytes, and two. -/
theorem utf8CheckedBy_told (size : ChunkSize) (check : Nat → StorageResult Unit) (bytes : Bytes) :
    ((∀ n, n ≤ bytes.length + 1 → check n = .ok ()) →
      utf8CheckedBy size check bytes = utf8Checked bytes) ∧
    (∀ text, utf8CheckedBy size check bytes = .ok text → utf8Checked bytes = .ok text) ∧
    ∀ e, utf8CheckedBy size check bytes = .error e →
      utf8Checked bytes = .error e ∨ ∃ n, n ≤ bytes.length + 1 ∧ check n = .error e := by
  have hok : ∀ text, utf8CheckedBy size check bytes = .ok text → utf8Checked bytes = .ok text := by
    intro text h
    unfold utf8CheckedBy at h
    obtain ⟨_, _, h⟩ := bind_eq_ok.mp h
    obtain ⟨⟨output, calls⟩, hread, h⟩ := bind_eq_ok.mp h
    obtain ⟨_, _, h⟩ := bind_eq_ok.mp h
    cases h
    have htold := readChunks_told size check 1 [] bytes
    rw [hread] at htold
    obtain ⟨_, t, rfl, ht⟩ := htold
    exact utf8Checked_ok.mpr ht
  have herror : ∀ e, utf8CheckedBy size check bytes = .error e →
      utf8Checked bytes = .error e ∨ ∃ n, n ≤ bytes.length + 1 ∧ check n = .error e := by
    intro e h
    have htold := readChunks_told size check 1 [] bytes
    unfold utf8CheckedBy at h
    cases hfirst : check 0 with
    | error e' =>
      rw [hfirst, error_bind] at h
      cases h
      exact .inr ⟨0, Nat.zero_le _, hfirst⟩
    | ok _ =>
      rw [hfirst, ok_bind] at h
      cases hread : readChunks size check 1 [] bytes with
      | error e' =>
        rw [hread] at h htold
        cases h
        rcases htold with ⟨rfl, hrefused⟩ | ⟨n, hn, he⟩
        · exact .inl (utf8Checked_error hrefused)
        · exact .inr ⟨n, by omega, he⟩
      | ok result =>
        obtain ⟨output, calls⟩ := result
        rw [hread] at h htold
        rw [ok_bind] at h
        dsimp only at h htold
        cases hlast : check calls with
        | ok _ =>
          rw [hlast] at h
          cases h
        | error e' =>
          rw [hlast] at h
          cases h
          exact .inr ⟨calls, Nat.add_comm 1 _ ▸ htold.1, hlast⟩
  refine ⟨fun hcheck => ?_, hok, herror⟩
  cases h : utf8CheckedBy size check bytes with
  | ok text => exact (hok text h).symm
  | error e =>
    rcases herror e h with h | ⟨n, hn, he⟩
    · exact h.symm
    · rw [hcheck n hn] at he
      cases he

end Lithograph.Storage
