/-
  File:      Lithograph/Library/Reader.lean
  Subject:   Readers that take a part off the front of a sequence, whatever follows it.

  * `Reads.unique`: a form that is read back is unambiguous, and none is a proper beginning of
    another.
-/
import Lithograph.Library.TreeMap

namespace Lithograph.Library

/-- A place in a sequence. -/
structure Cursor (β : Type) where
  offset : Nat
  rest : List β

/-- A reader moves the cursor on, or fails. -/
abbrev Reader (ε β α : Type) := StateT (Cursor β) (Except ε) α

variable {ε α β γ : Type}

/-- **`read` answers `a` on `chunk` and takes exactly the chunk.** -/
def Reads (read : Reader ε β α) (a : α) (chunk : List β) : Prop :=
  ∀ offset rest, read.run ⟨offset, chunk ++ rest⟩ = .ok (a, ⟨offset + chunk.length, rest⟩)

theorem reads_pure (a : α) : Reads (pure a : Reader ε β α) a [] := fun _ _ => rfl

variable {read : Reader ε β α}

theorem Reads.bind {k : α → Reader ε β γ} {a : α} {b : γ} {x y : List β}
    (hx : Reads read a x) (hy : Reads (k a) b y) : Reads (read >>= k) b (x ++ y) := by
  intro offset rest
  have hread := hx offset (y ++ rest)
  have hnext := hy (offset + x.length) rest
  rw [StateT.run_bind, List.append_assoc, hread, List.length_append, ← Nat.add_assoc]
  exact hnext

theorem Reads.map {a : α} {x : List β} (hx : Reads read a x) (f : α → γ) :
    Reads (read >>= fun a => pure (f a)) (f a) x := by
  have h := hx.bind (k := fun a => pure (f a)) (reads_pure (f a))
  rwa [List.append_nil] at h

/-- **What a reader takes off is settled.** -/
theorem Reads.unique {a b : α} {x y s t : List β}
    (hx : Reads read a x) (hy : Reads read b y) (h : x ++ s = y ++ t) : a = b ∧ x = y ∧ s = t := by
  have hread := hx 0 s
  rw [h, hy 0 t] at hread
  injection hread with hread
  injection hread with hvalue hcursor
  injection hcursor with hlength hrest
  have hxy : x = y := (List.append_inj h (by omega)).1
  exact ⟨hvalue.symm, hxy, hrest.symm⟩

/-- `read`, a given number of times. -/
def times (read : Reader ε β α) : Nat → Reader ε β (List α)
  | 0 => pure []
  | n + 1 => do
    let value ← read
    let values ← times read n
    pure (value :: values)

/-- **Chunks one after the other are read one after the other.** -/
theorem reads_times {chunk : α → List β} :
    ∀ {values : List α}, (∀ a ∈ values, Reads read a (chunk a)) →
      Reads (times read values.length) values (values.flatMap chunk)
  | [], _ => reads_pure []
  | a :: values, h => by
    have hhead : Reads read a (chunk a) := h a (.head _)
    have htail : Reads (times read values.length) values (values.flatMap chunk) :=
      reads_times fun b hb => h b (List.mem_cons_of_mem a hb)
    exact hhead.bind (htail.map (a :: ·))

/-! ## What is left never grows -/

/-- Every answer leaves at most what there was. -/
def Shrinks (read : Reader ε β α) : Prop :=
  ∀ c a c', read.run c = .ok (a, c') → c'.rest.length ≤ c.rest.length

theorem shrinks_pure (a : α) : Shrinks (pure a : Reader ε β α) := by
  intro c b c' h
  cases h
  exact Nat.le_refl _

theorem run_bind_ok {next : α → Reader ε β γ} {b : γ} {c c' : Cursor β} :
    (read >>= next).run c = .ok (b, c') ↔
      ∃ a c₁, read.run c = .ok (a, c₁) ∧ (next a).run c₁ = .ok (b, c') := by
  rw [StateT.run_bind, bind_eq_ok]
  constructor
  · rintro ⟨⟨a, c₁⟩, hread, hnext⟩
    exact ⟨a, c₁, hread, hnext⟩
  · rintro ⟨a, c₁, hread, hnext⟩
    exact ⟨(a, c₁), hread, hnext⟩

theorem Shrinks.bind {next : α → Reader ε β γ} (hread : Shrinks read)
    (hnext : ∀ a, Shrinks (next a)) : Shrinks (read >>= next) := by
  intro c b c' h
  obtain ⟨a, c₁, h₁, h₂⟩ := run_bind_ok.mp h
  exact Nat.le_trans (hnext a c₁ b c' h₂) (hread c a c₁ h₁)

end Lithograph.Library
