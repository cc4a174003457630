/-
  File:      Lithograph/Library/Distinct.lean
  Subject:   A scan that refuses two items with one key.

  * `scanDistinct_sub`: what goes through goes through over fewer items too.
-/
import Mathlib.Data.List.Pairwise
import Lithograph.Library.TreeMap

namespace Lithograph.Library

open Std

variable {ε α κ : Type} [Ord κ] [TransOrd κ] [LawfulEqOrd κ] [DecidableEq κ]

/-- One item: its key is new, or the scan ends. -/
def recordDistinct (key : α → Except ε (Option κ)) (clash : α → α → ε) (seen : ExtTreeMap κ α)
    (a : α) : Except ε (ExtTreeMap κ α) := do
  let k ← key a
  match k with
  | none => pure seen
  | some k =>
    match seen[k]? with
    | none => pure (seen.insert k a)
    | some existing => .error (clash existing a)

/-- Two items do not share a key. -/
def Apart (key : α → Except ε (Option κ)) (a b : α) : Prop :=
  ∀ k, key a = .ok (some k) → key b ≠ .ok (some k)

omit [Ord κ] [TransOrd κ] [LawfulEqOrd κ] [DecidableEq κ] in
theorem apart_symm {key : α → Except ε (Option κ)} {a b : α} (h : Apart key a b) :
    Apart key b a := fun k hb ha => h k ha hb

/-- **The scan goes through** where keys, if any, are new and distinct. -/
theorem scanDistinct_ok {key : α → Except ε (Option κ)} {clash : α → α → ε} :
    ∀ {l : List α} {seen : ExtTreeMap κ α},
      (∃ last, l.foldlM (recordDistinct key clash) seen = .ok last) ↔
        (∀ a ∈ l, ∃ k, key a = .ok k ∧ ∀ k', k = some k' → seen[k']? = none) ∧
          l.Pairwise (Apart key)
  | [], seen => by
    refine ⟨fun _ => ⟨fun a ha => absurd ha List.not_mem_nil, .nil⟩, fun _ => ⟨seen, rfl⟩⟩
  | a :: l, seen => by
    rw [List.foldlM_cons, List.pairwise_cons]
    constructor
    · rintro ⟨last, h⟩
      obtain ⟨seen', hone, hrest⟩ := bind_eq_ok.mp h
      obtain ⟨hkeys, hapart⟩ := scanDistinct_ok.mp ⟨last, hrest⟩
      obtain ⟨k, hk, hone⟩ := bind_eq_ok.mp hone
      cases k with
      | none =>
        cases hone
        refine ⟨fun b hb => ?_, fun b _ k ha => ?_, hapart⟩
        · rcases List.mem_cons.mp hb with rfl | hb
          · exact ⟨none, hk, fun k' hk' => nomatch hk'⟩
          · exact hkeys b hb
        · rw [hk] at ha
          cases ha
      | some k =>
        cases hseen : seen[k]? with
        | some existing =>
          simp only [hseen] at hone
          cases hone
        | none =>
          simp only [hseen] at hone
          cases hone
          refine ⟨fun b hb => ?_, fun b hb k' ha hb' => ?_, hapart⟩
          · rcases List.mem_cons.mp hb with rfl | hb
            · refine ⟨some k, hk, fun k' hk' => ?_⟩
              cases hk'
              exact hseen
            · obtain ⟨kb, hkb, hnew⟩ := hkeys b hb
              refine ⟨kb, hkb, fun k' hk' => ?_⟩
              have hfresh := hnew k' hk'
              rw [lookup_insert] at hfresh
              split at hfresh
              · cases hfresh
              · exact hfresh
          · rw [hk] at ha
            cases ha
            obtain ⟨kb, hkb, hnew⟩ := hkeys b hb
            rw [hb'] at hkb
            cases hkb
            have hfresh := hnew k rfl
            rw [lookup_insert, if_pos rfl] at hfresh
            cases hfresh
    · rintro ⟨hkeys, hfirst, hapart⟩
      obtain ⟨k, hk, hnew⟩ := hkeys a (.head _)
      have hrest : ∀ b ∈ l, ∃ k, key b = .ok k ∧ ∀ k', k = some k' → seen[k']? = none :=
        fun b hb => hkeys b (List.mem_cons_of_mem a hb)
      cases k with
      | none =>
        obtain ⟨last, hlast⟩ := scanDistinct_ok.mpr ⟨hrest, hapart⟩
        refine ⟨last, bind_eq_ok.mpr ⟨seen, ?_, hlast⟩⟩
        unfold recordDistinct
        rw [hk]
        rfl
      | some k =>
        have hnext : ∀ b ∈ l, ∃ kb, key b = .ok kb ∧
            ∀ k', kb = some k' → (seen.insert k a)[k']? = none := by
          intro b hb
          obtain ⟨kb, hkb, hfresh⟩ := hrest b hb
          refine ⟨kb, hkb, fun k' hk' => ?_⟩
          rw [lookup_insert]
          split
          · rename_i heq
            subst heq
            subst hk'
            exact absurd hkb (hfirst b hb _ hk)
          · exact hfresh k' hk'
        obtain ⟨last, hlast⟩ := scanDistinct_ok.mpr ⟨hnext, hapart⟩
        refine ⟨last, bind_eq_ok.mpr ⟨seen.insert k a, ?_, hlast⟩⟩
        unfold recordDistinct
        rw [hk, ok_bind]
        simp only [hnew k rfl]
        rfl

/-- **Over fewer items the scan goes through as well.** -/
theorem scanDistinct_sub {key key' : α → Except ε (Option κ)} {clash : α → α → ε} {l l' : List α}
    (hnodup : l'.Nodup) (hsub : ∀ a ∈ l', a ∈ l) (hsame : ∀ a ∈ l', key' a = key a)
    (h : ∃ last, l.foldlM (recordDistinct key clash) ∅ = .ok last) :
    ∃ last, l'.foldlM (recordDistinct key' clash) ∅ = .ok last := by
  obtain ⟨hkeys, hapart⟩ := scanDistinct_ok.mp h
  have : Std.Symm (Apart key) := ⟨fun _ _ => apart_symm⟩
  refine scanDistinct_ok.mpr ⟨fun a ha => ?_, ?_⟩
  · rw [hsame a ha]
    exact hkeys a (hsub a ha)
  · refine hnodup.imp_of_mem fun {a b} ha hb hne k hka hkb => ?_
    rw [hsame a ha] at hka
    rw [hsame b hb] at hkb
    exact hapart.forall (hsub a ha) (hsub b hb) hne k hka hkb

end Lithograph.Library
