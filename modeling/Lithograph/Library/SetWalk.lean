/-
  File:      Lithograph/Library/SetWalk.lean
  Subject:   Everything reachable from an item, collected with two sorted sets.

  * `collect_total`: where everything met has successors, the loop ends: one pass for each item.
-/
import Lithograph.Library.Worklist

namespace Lithograph.Library

open Std

section SetWalk

variable {α ε : Type} [Ord α] [TransOrd α] [LawfulEqOrd α]

/-- The successors that were not visited, put into the frontier. -/
def enqueue (visited : ExtTreeSet α) (next : List α) (frontier : ExtTreeSet α) : ExtTreeSet α :=
  next.foldl (fun frontier b => if visited.contains b then frontier else frontier.insert b) frontier

/-- The loop; `none` when the fuel ends first. -/
def collect (succ : α → Except ε (List α)) :
    Nat → ExtTreeSet α → ExtTreeSet α → Except ε (Option (ExtTreeSet α))
  | 0, _, _ => .ok none
  | fuel + 1, visited, frontier =>
    match frontier.toList.head? with
    | none => .ok (some visited)
    | some a =>
      if visited.contains a then collect succ fuel visited (frontier.erase a)
      else do
        let next ← succ a
        collect succ fuel (visited.insert a) (enqueue (visited.insert a) next (frontier.erase a))

variable {succ : α → Except ε (List α)} {s : ExtTreeSet α}

theorem mem_insert_iff {a b : α} : b ∈ s.insert a ↔ b = a ∨ b ∈ s := by
  rw [ExtTreeSet.mem_insert, LawfulEqOrd.compare_eq_iff_eq]
  exact or_congr_left eq_comm

theorem mem_erase_iff {a b : α} : b ∈ s.erase a ↔ b ≠ a ∧ b ∈ s := by
  rw [ExtTreeSet.mem_erase, ne_eq, LawfulEqOrd.compare_eq_iff_eq]
  exact and_congr_left fun _ => not_congr eq_comm

theorem mem_enqueue (visited : ExtTreeSet α) (b : α) : ∀ (next : List α) (frontier : ExtTreeSet α),
    b ∈ enqueue visited next frontier ↔ b ∈ frontier ∨ b ∈ next ∧ b ∉ visited
  | [], frontier => by
    show b ∈ frontier ↔ _
    simp only [List.not_mem_nil, false_and, or_false]
  | c :: next, frontier => by
    have hrest := mem_enqueue visited b next
      (if visited.contains c then frontier else frontier.insert c)
    have hstep : enqueue visited (c :: next) frontier =
        enqueue visited next (if visited.contains c then frontier else frontier.insert c) := rfl
    rw [hstep, hrest, List.mem_cons]
    split
    next hc =>
      constructor
      · intro h
        rcases h with h | h
        · exact Or.inl h
        · exact Or.inr ⟨Or.inr h.1, h.2⟩
      · intro h
        rcases h with h | ⟨heq | h, hnot⟩
        · exact Or.inl h
        · exact absurd (heq ▸ hc) hnot
        · exact Or.inr ⟨h, hnot⟩
    next hc =>
      rw [mem_insert_iff]
      constructor
      · intro h
        rcases h with (heq | h) | h
        · exact Or.inr ⟨Or.inl heq, heq ▸ hc⟩
        · exact Or.inl h
        · exact Or.inr ⟨Or.inr h.1, h.2⟩
      · intro h
        rcases h with h | ⟨heq | h, hnot⟩
        · exact Or.inl (Or.inr h)
        · exact Or.inl (Or.inl heq)
        · exact Or.inr ⟨h, hnot⟩

theorem mem_of_head? {a : α} (h : s.toList.head? = some a) : a ∈ s :=
  ExtTreeSet.mem_toList.mp (List.mem_of_mem_head? h)

theorem not_mem_of_head? (h : s.toList.head? = none) (a : α) : a ∉ s := by
  rw [← ExtTreeSet.mem_toList, List.head?_eq_none_iff.mp h]
  exact List.not_mem_nil

/-- **What one result says of its loop**: it is closed, and holds what was visited and the frontier
and nothing else. -/
theorem collect_result : ∀ {fuel : Nat} {visited frontier result : ExtTreeSet α},
    collect succ fuel visited frontier = .ok (some result) →
      (∀ a, a ∈ visited ∨ a ∈ frontier → a ∈ result) ∧
      (∀ a ∈ result, a ∉ visited → ∃ next, succ a = .ok next ∧ ∀ b ∈ next, b ∈ result) ∧
      (∀ a ∈ result, a ∈ visited ∨ ∃ r ∈ frontier, Relation.ReflTransGen (Follows succ) r a)
  | 0, _, _, _, h => by cases h
  | fuel + 1, visited, frontier, result, h => by
    unfold collect at h
    cases hmin : frontier.toList.head? with
    | none =>
      rw [hmin] at h
      cases h
      have hempty := not_mem_of_head? hmin
      refine ⟨fun a ha => ?_, fun a ha hnot => absurd ha hnot, fun a ha => Or.inl ha⟩
      exact ha.resolve_right (hempty a)
    | some a =>
      rw [hmin] at h
      simp only at h
      have ha := mem_of_head? hmin
      split at h
      next hseen =>
        obtain ⟨hall, hclosed, hsound⟩ := collect_result h
        refine ⟨fun b hb => ?_, hclosed, fun b hb => ?_⟩
        · rcases hb with hb | hb
          · exact hall b (Or.inl hb)
          · by_cases hab : b = a
            · exact hall b (Or.inl (hab ▸ hseen))
            · exact hall b (Or.inr (mem_erase_iff.mpr ⟨hab, hb⟩))
        · rcases hsound b hb with hvisited | ⟨r, hr, hpath⟩
          · exact Or.inl hvisited
          · exact Or.inr ⟨r, (mem_erase_iff.mp hr).2, hpath⟩
      next =>
        obtain ⟨next, hnext, h⟩ := bind_eq_ok.mp h
        obtain ⟨hall, hclosed, hsound⟩ := collect_result h
        have hsucc : ∀ b ∈ next, b ∈ result := by
          intro b hb
          by_cases hvisited : b ∈ visited.insert a
          · exact hall b (Or.inl hvisited)
          · exact hall b (Or.inr ((mem_enqueue _ _ _ _).mpr (Or.inr ⟨hb, hvisited⟩)))
        have hself : a ∈ result := hall a (Or.inl (mem_insert_iff.mpr (Or.inl rfl)))
        refine ⟨fun b hb => ?_, fun b hb hnot => ?_, fun b hb => ?_⟩
        · rcases hb with hb | hb
          · exact hall b (Or.inl (mem_insert_iff.mpr (Or.inr hb)))
          · by_cases hab : b = a
            · exact hab ▸ hself
            · exact hall b (Or.inr ((mem_enqueue _ _ _ _).mpr (Or.inl (mem_erase_iff.mpr ⟨hab, hb⟩))))
        · by_cases hab : b = a
          · exact hab ▸ ⟨next, hnext, hsucc⟩
          · refine hclosed b hb fun hmem => ?_
            rcases mem_insert_iff.mp hmem with heq | hvisited
            · exact hab heq
            · exact hnot hvisited
        · rcases hsound b hb with hvisited | ⟨r, hr, hpath⟩
          · rcases mem_insert_iff.mp hvisited with heq | hvisited
            · exact Or.inr ⟨a, ha, heq ▸ .refl⟩
            · exact Or.inl hvisited
          · rcases (mem_enqueue _ _ _ _).mp hr with hr | hr
            · exact Or.inr ⟨r, (mem_erase_iff.mp hr).2, hpath⟩
            · exact Or.inr ⟨a, ha, .head ⟨next, hnext, hr.1⟩ hpath⟩

/-- **From one item, the result is what is reachable from it.** -/
theorem mem_collect_iff {fuel : Nat} {start : α} {result : ExtTreeSet α}
    (h : collect succ fuel ∅ ((∅ : ExtTreeSet α).insert start) = .ok (some result)) (a : α) :
    a ∈ result ↔ Relation.ReflTransGen (Follows succ) start a := by
  obtain ⟨hall, hclosed, hsound⟩ := collect_result h
  constructor
  · intro ha
    rcases hsound a ha with hvisited | ⟨r, hr, hpath⟩
    · exact absurd hvisited ExtTreeSet.not_mem_empty
    · rcases mem_insert_iff.mp hr with heq | hr
      · exact heq ▸ hpath
      · exact absurd hr ExtTreeSet.not_mem_empty
  · intro hpath
    induction hpath with
    | refl => exact hall start (Or.inr (mem_insert_iff.mpr (Or.inl rfl)))
    | @tail b c _ hstep ih =>
      obtain ⟨next, hnext, hc⟩ := hstep
      obtain ⟨next', hnext', hmem⟩ := hclosed b ih ExtTreeSet.not_mem_empty
      rw [hnext] at hnext'
      cases hnext'
      exact hmem c hc

/-- **The loop ends with a result**, where everything met has successors. -/
theorem collect_total {items : List α} {P : α → Prop}
    (hP : ∀ a, P a → a ∈ items ∧ ∃ next, succ a = .ok next ∧ ∀ b ∈ next, P b) :
    ∀ {fuel : Nat} {visited frontier : ExtTreeSet α}, (∀ a ∈ frontier, P a ∧ a ∉ visited) →
      items.countP (fun a => !visited.contains a) < fuel →
        ∃ result, collect succ fuel visited frontier = .ok (some result)
  | 0, _, _, _, hfuel => absurd hfuel (Nat.not_lt_zero _)
  | fuel + 1, visited, frontier, hfrontier, hfuel => by
    unfold collect
    cases hmin : frontier.toList.head? with
    | none => exact ⟨visited, rfl⟩
    | some a =>
      obtain ⟨hPa, hnew⟩ := hfrontier a (mem_of_head? hmin)
      obtain ⟨hitem, next, hnext, hmore⟩ := hP a hPa
      have hcontains : visited.contains a = false := by
        rw [← Bool.not_eq_true, ExtTreeSet.contains_iff_mem]
        exact hnew
      simp only [hcontains, Bool.false_eq_true, if_false]
      rw [hnext, ok_bind]
      refine collect_total hP (fun b hb => ?_) ?_
      · rcases (mem_enqueue _ _ _ _).mp hb with hb | ⟨hb, hfresh⟩
        · obtain ⟨hne, hb⟩ := mem_erase_iff.mp hb
          obtain ⟨hPb, hnot⟩ := hfrontier b hb
          refine ⟨hPb, fun hmem => ?_⟩
          exact (mem_insert_iff.mp hmem).elim hne hnot
        · exact ⟨hmore b hb, hfresh⟩
      · have hless := countP_add_one_le (a := a)
          (p := fun b => !visited.contains b) (q := fun b => !(visited.insert a).contains b)
          (fun b _ hb => ?_) hitem (by simp [hcontains]) ?_
        · omega
        · simp only [Bool.not_eq_true', ← Bool.not_eq_true, ExtTreeSet.contains_iff_mem] at hb ⊢
          exact fun hmem => hb (mem_insert_iff.mpr (Or.inr hmem))
        · simp only [Bool.not_eq_false', ExtTreeSet.contains_iff_mem]
          exact mem_insert_iff.mpr (Or.inl rfl)

end SetWalk

end Lithograph.Library
