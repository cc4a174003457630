/-
  File:      Lithograph/Library/Difference.lean
  Subject:   The smallest changes that lead from one sorted map to another.

  Two values may count as the same without being equal.

  * `mem_setChanges`: two sorted lists, gone through side by side, give what is in one of them.
-/
import Lithograph.Library.Overlay

namespace Lithograph.Library

open Std

/-! ## 1. Differences of maps -/

section Maps

variable {K V : Type} [Ord K] [TransOrd K] [LawfulEqOrd K] [DecidableEq K] {same : V → V → Prop}
  {before after : ExtTreeMap K V} {changes : ExtTreeMap K (Option V)}

/-- The changes name exactly the keys at which the maps differ, with what is there afterwards. -/
structure IsDifference (same : V → V → Prop) (before after : ExtTreeMap K V)
    (changes : ExtTreeMap K (Option V)) : Prop where
  kept : ∀ k : K, changes[k]? = none → Option.Rel same before[k]? after[k]?
  changed : ∀ (k : K) (c : Option V), changes[k]? = some c →
    c = after[k]? ∧ ¬ Option.Rel same before[k]? after[k]?

/-- What a change says of a key: nothing where the values are the same, and else the value after
    it. -/
def Says {D : Type} (same : V → V → Prop) (value : D → Option V) (before after : Option V) :
    Option D → Prop
  | none => Option.Rel same before after
  | some change => value change = after ∧ ¬ Option.Rel same before after

omit [DecidableEq K] in
theorem Says.isDifference {D : Type} {same : V → V → Prop} {value : D → Option V}
    {before after : ExtTreeMap K V} {m : ExtTreeMap K D}
    (h : ∀ k : K, Says same value before[k]? after[k]? m[k]?) :
    IsDifference same before after (m.map fun _ => value) := by
  refine ⟨fun k hk => ?_, fun k c hc => ?_⟩
  · have hsays := h k
    rw [ExtTreeMap.getElem?_map, Option.map_eq_none_iff] at hk
    rw [hk] at hsays
    exact hsays
  · have hsays := h k
    rw [ExtTreeMap.getElem?_map, Option.map_eq_some_iff] at hc
    obtain ⟨change, hchange, rfl⟩ := hc
    rw [hchange] at hsays
    exact hsays

omit [LawfulEqOrd K] [DecidableEq K] in
theorem rel_refl (hrefl : ∀ v, same v v) (o : Option V) : Option.Rel same o o := by
  cases o with
  | none => exact .none
  | some v => exact .some (hrefl v)

/-- **A difference leads to the other map.** -/
theorem IsDifference.patch (h : IsDifference same before after changes)
    (hrefl : ∀ v, same v v) (k : K) :
    Option.Rel same (Library.patch before changes)[k]? after[k]? := by
  rw [getElem?_patch]
  cases hc : changes[k]? with
  | none => exact h.kept k hc
  | some c =>
    rw [(h.changed k c hc).1]
    exact rel_refl hrefl after[k]?

theorem IsDifference.patch_eq (h : IsDifference Eq before after changes) :
    Library.patch before changes = after := by
  refine ExtTreeMap.ext_getElem? fun k => ?_
  have hk := h.patch (fun _ => rfl) k
  cases hp : (Library.patch before changes)[k]? with
  | none =>
    rw [hp] at hk
    cases ha : after[k]? with
    | none => rfl
    | some b =>
      rw [ha] at hk
      cases hk
  | some a =>
    rw [hp] at hk
    cases ha : after[k]? with
    | none =>
      rw [ha] at hk
      cases hk
    | some b =>
      rw [ha] at hk
      cases hk with
      | some heq => rw [heq]

/-- **It is the smallest.** -/
theorem IsDifference.minimal (h : IsDifference same before after changes)
    {others : ExtTreeMap K (Option V)}
    (hothers : ∀ k : K, Option.Rel same (Library.patch before others)[k]? after[k]?) {k : K}
    (hk : changes[k]?.isSome) : others[k]?.isSome := by
  obtain ⟨c, hc⟩ := Option.isSome_iff_exists.mp hk
  cases ho : others[k]? with
  | some _ => rfl
  | none =>
    have hrel := hothers k
    rw [getElem?_patch, ho] at hrel
    exact absurd hrel (h.changed k c hc).2

omit [DecidableEq K] in
/-- **There is one difference.** -/
theorem IsDifference.unique (h : IsDifference same before after changes)
    {others : ExtTreeMap K (Option V)} (h' : IsDifference same before after others) :
    changes = others := by
  refine ExtTreeMap.ext_getElem? fun k => ?_
  cases hc : changes[k]? with
  | none =>
    cases ho : others[k]? with
    | none => rfl
    | some o => exact absurd (h.kept k hc) (h'.changed k o ho).2
  | some c =>
    cases ho : others[k]? with
    | none => exact absurd (h'.kept k ho) (h.changed k c hc).2
    | some o => rw [(h.changed k c hc).1, (h'.changed k o ho).1]

omit [DecidableEq K] in
theorem IsDifference.of_self (h : IsDifference same before before changes)
    (hrefl : ∀ v, same v v) : changes = ∅ := by
  refine ExtTreeMap.ext_getElem? fun k => ?_
  cases hc : changes[k]? with
  | none => simp
  | some c => exact absurd (rel_refl hrefl before[k]?) (h.changed k c hc).2

end Maps

/-! ## 2. Two sorted lists, side by side -/

section Lists

variable {K : Type} [Ord K] [TransOrd K] [LawfulEqOrd K]

/-- What is in one of two sorted lists only, in order, and whether it is the second one. -/
def setChanges : List K → List K → List (K × Bool)
  | [], after => after.map fun k => (k, true)
  | k :: before, [] => (k :: before).map fun k => (k, false)
  | k :: before, j :: after =>
    match compare k j with
    | .lt => (k, false) :: setChanges before (j :: after)
    | .gt => (j, true) :: setChanges (k :: before) after
    | .eq => setChanges before after
termination_by before after => before.length + after.length

theorem mem_setChanges : ∀ {before after : List K}, before.Pairwise (fun a b => compare a b = .lt) →
    after.Pairwise (fun a b => compare a b = .lt) → ∀ (k : K) (added : Bool),
      (k, added) ∈ setChanges before after ↔
        if added then k ∈ after ∧ k ∉ before else k ∈ before ∧ k ∉ after := by
  intro before after
  fun_induction setChanges before after with
  | case1 after =>
    intro _ _ k added
    cases added <;> simp
  | case2 j before =>
    intro _ _ k added
    cases added <;> simp
  | case3 i before j after hcmp ih =>
    -- the first key of the first list is before all of the second one
    intro hb ha k added
    have hnot : i ∉ j :: after := by
      intro hmem
      rcases List.mem_cons.mp hmem with rfl | hmem
      · exact compare_lt_irrefl _ hcmp
      · exact compare_lt_irrefl _ (TransCmp.lt_trans hcmp ((List.pairwise_cons.mp ha).1 i hmem))
    rw [List.mem_cons, ih (List.pairwise_cons.mp hb).2 ha k added, Prod.mk.injEq]
    cases added with
    | false =>
      simp only [Bool.false_eq_true, if_false, List.mem_cons (a := k) (l := before)]
      constructor
      · rintro (⟨rfl, _⟩ | h)
        · exact ⟨Or.inl rfl, hnot⟩
        · exact ⟨Or.inr h.1, h.2⟩
      · rintro ⟨rfl | h, h'⟩
        · exact Or.inl ⟨rfl, trivial⟩
        · exact Or.inr ⟨h, h'⟩
    | true =>
      simp only [if_true, Bool.true_eq_false, and_false, false_or,
        List.mem_cons (a := k) (l := before), not_or]
      constructor
      · rintro ⟨h, h'⟩
        exact ⟨h, fun heq => hnot (heq ▸ h), h'⟩
      · rintro ⟨h, _, h'⟩
        exact ⟨h, h'⟩
  | case4 i before j after hcmp ih =>
    -- and the other way round
    intro hb ha k added
    have hlt : compare j i = .lt := OrientedCmp.lt_of_gt hcmp
    have hnot : j ∉ i :: before := by
      intro hmem
      rcases List.mem_cons.mp hmem with rfl | hmem
      · exact compare_lt_irrefl _ hlt
      · exact compare_lt_irrefl _ (TransCmp.lt_trans hlt ((List.pairwise_cons.mp hb).1 j hmem))
    rw [List.mem_cons, ih hb (List.pairwise_cons.mp ha).2 k added, Prod.mk.injEq]
    cases added with
    | false =>
      simp only [Bool.false_eq_true, if_false, and_false, false_or,
        List.mem_cons (a := k) (l := after), not_or]
      constructor
      · rintro ⟨h, h'⟩
        exact ⟨h, fun heq => hnot (heq ▸ h), h'⟩
      · rintro ⟨h, _, h'⟩
        exact ⟨h, h'⟩
    | true =>
      simp only [if_true, and_true, List.mem_cons (a := k) (l := after)]
      constructor
      · rintro (rfl | h)
        · exact ⟨Or.inl rfl, hnot⟩
        · exact ⟨Or.inr h.1, h.2⟩
      · rintro ⟨rfl | h, h'⟩
        · exact Or.inl rfl
        · exact Or.inr ⟨h, h'⟩
  | case5 i before j after hcmp ih =>
    -- a key of both lists is passed over
    intro hb ha k added
    have heq : i = j := LawfulEqCmp.eq_of_compare hcmp
    subst heq
    have hnewb : i ∉ before := fun hmem =>
      compare_lt_irrefl _ ((List.pairwise_cons.mp hb).1 i hmem)
    have hnewa : i ∉ after := fun hmem =>
      compare_lt_irrefl _ ((List.pairwise_cons.mp ha).1 i hmem)
    rw [ih (List.pairwise_cons.mp hb).2 (List.pairwise_cons.mp ha).2 k added]
    by_cases hk : k = i
    · subst hk
      cases added <;> simp [hnewa, hnewb]
    · cases added <;> simp [hk]

theorem setChanges_sorted : ∀ {before after : List K},
    before.Pairwise (fun a b => compare a b = .lt) →
    after.Pairwise (fun a b => compare a b = .lt) → (setChanges before after).Pairwise KeyLt := by
  intro before after
  fun_induction setChanges before after with
  | case1 after =>
    intro _ ha
    exact List.pairwise_map.mpr ha
  | case2 j before =>
    intro hb _
    exact List.pairwise_map.mpr hb
  | case3 i before j after hcmp ih =>
    intro hb ha
    obtain ⟨hfirst, hb'⟩ := List.pairwise_cons.mp hb
    refine List.pairwise_cons.mpr ⟨fun e he => ?_, ih hb' ha⟩
    have hmem := (mem_setChanges hb' ha e.1 e.2).mp he
    have hin : e.1 ∈ before ∨ e.1 ∈ j :: after := by
      split at hmem
      · exact Or.inr hmem.1
      · exact Or.inl hmem.1
    rcases hin with hin | hin
    · exact hfirst e.1 hin
    · rcases List.mem_cons.mp hin with heq | hin
      · show compare i e.1 = .lt
        rw [heq]
        exact hcmp
      · exact TransCmp.lt_trans hcmp ((List.pairwise_cons.mp ha).1 e.1 hin)
  | case4 i before j after hcmp ih =>
    intro hb ha
    obtain ⟨hfirst, ha'⟩ := List.pairwise_cons.mp ha
    have hlt : compare j i = .lt := OrientedCmp.lt_of_gt hcmp
    refine List.pairwise_cons.mpr ⟨fun e he => ?_, ih hb ha'⟩
    have hmem := (mem_setChanges hb ha' e.1 e.2).mp he
    have hin : e.1 ∈ i :: before ∨ e.1 ∈ after := by
      split at hmem
      · exact Or.inr hmem.1
      · exact Or.inl hmem.1
    rcases hin with hin | hin
    · rcases List.mem_cons.mp hin with heq | hin
      · show compare j e.1 = .lt
        rw [heq]
        exact hlt
      · exact TransCmp.lt_trans hlt ((List.pairwise_cons.mp hb).1 e.1 hin)
    · exact hfirst e.1 hin
  | case5 i before j after _ ih =>
    intro hb ha
    exact ih (List.pairwise_cons.mp hb).2 (List.pairwise_cons.mp ha).2

end Lists

end Lithograph.Library
