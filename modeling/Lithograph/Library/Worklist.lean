/-
  File:      Lithograph/Library/Worklist.lean
  Subject:   Everything reachable from some roots, collected with a worklist.

  * `closure_ends`: where the items with successors lie in a finite list and have a bounded number
    of them, a bounded number of passes is enough.
-/
import Lithograph.Library.TreeMap

namespace Lithograph.Library

section Worklist

variable {α ε : Type} [DecidableEq α]

/-- The loop; `none` when the fuel ends first. -/
def closure (succ : α → Except ε (List α)) : Nat → List α → List α → Except ε (Option (List α))
  | 0, _, _ => .ok none
  | _ + 1, visited, [] => .ok (some visited)
  | fuel + 1, visited, a :: frontier =>
    if a ∈ visited then closure succ fuel visited frontier
    else do
      let next ← succ a
      closure succ fuel (a :: visited) (next ++ frontier)

variable {succ : α → Except ε (List α)}

theorem closure_visited : ∀ {fuel : Nat} {visited frontier result : List α},
    closure succ fuel visited frontier = .ok (some result) → ∀ a ∈ visited, a ∈ result
  | 0, visited, frontier, result, h => by
    unfold closure at h
    cases h
  | fuel + 1, visited, [], result, h => by
    unfold closure at h
    cases h
    exact fun a ha => ha
  | fuel + 1, visited, b :: frontier, result, h => by
    unfold closure at h
    split at h
    · exact closure_visited h
    · obtain ⟨next, _, hrest⟩ := bind_eq_ok.mp h
      exact fun a ha => closure_visited hrest a (.tail _ ha)

theorem closure_frontier : ∀ {fuel : Nat} {visited frontier result : List α},
    closure succ fuel visited frontier = .ok (some result) → ∀ a ∈ frontier, a ∈ result
  | 0, visited, frontier, result, h => by
    unfold closure at h
    cases h
  | fuel + 1, visited, [], result, h => by
    intro a ha
    cases ha
  | fuel + 1, visited, b :: frontier, result, h => by
    intro a ha
    unfold closure at h
    split at h
    · rename_i hb
      rcases List.mem_cons.mp ha with rfl | ha
      · exact closure_visited h a hb
      · exact closure_frontier h a ha
    · obtain ⟨next, _, hrest⟩ := bind_eq_ok.mp h
      rcases List.mem_cons.mp ha with rfl | ha
      · exact closure_visited hrest a (.head _)
      · exact closure_frontier hrest a (List.mem_append_right _ ha)

/-- **The result is closed.** -/
theorem closure_closed : ∀ {fuel : Nat} {visited frontier result : List α},
    closure succ fuel visited frontier = .ok (some result) →
      ∀ a ∈ result, a ∉ visited → ∃ next, succ a = .ok next ∧ ∀ b ∈ next, b ∈ result
  | 0, visited, frontier, result, h => by
    unfold closure at h
    cases h
  | fuel + 1, visited, [], result, h => by
    unfold closure at h
    cases h
    exact fun a ha hn => absurd ha hn
  | fuel + 1, visited, b :: frontier, result, h => by
    intro a ha hn
    unfold closure at h
    split at h
    · exact closure_closed h a ha hn
    · obtain ⟨next, hnext, hrest⟩ := bind_eq_ok.mp h
      by_cases hab : a = b
      · subst hab
        refine ⟨next, hnext, fun c hc => ?_⟩
        exact closure_frontier hrest c (List.mem_append_left _ hc)
      · refine closure_closed hrest a ha fun hmem => ?_
        rcases List.mem_cons.mp hmem with e | hmem
        · exact hab e
        · exact hn hmem

/-- **The result is no larger than it must be.** -/
theorem closure_sound : ∀ {fuel : Nat} {visited frontier result : List α},
    closure succ fuel visited frontier = .ok (some result) →
      ∀ a ∈ result, a ∈ visited ∨
        ∃ r ∈ frontier, Relation.ReflTransGen (fun x y => ∃ next, succ x = .ok next ∧ y ∈ next) r a
  | 0, visited, frontier, result, h => by
    unfold closure at h
    cases h
  | fuel + 1, visited, [], result, h => by
    unfold closure at h
    cases h
    exact fun a ha => .inl ha
  | fuel + 1, visited, b :: frontier, result, h => by
    intro a ha
    unfold closure at h
    split at h
    · rcases closure_sound h a ha with hv | ⟨r, hr, hreach⟩
      · exact .inl hv
      · exact .inr ⟨r, .tail _ hr, hreach⟩
    · obtain ⟨next, hnext, hrest⟩ := bind_eq_ok.mp h
      rcases closure_sound hrest a ha with hv | ⟨r, hr, hreach⟩
      · rcases List.mem_cons.mp hv with rfl | hv
        · exact .inr ⟨a, .head _, .refl⟩
        · exact .inl hv
      · rcases List.mem_append.mp hr with hr | hr
        · exact .inr ⟨b, .head _, .head ⟨next, hnext, hr⟩ hreach⟩
        · exact .inr ⟨r, .tail _ hr, hreach⟩

/-- One item follows another. -/
def Follows (succ : α → Except ε (List α)) (a b : α) : Prop := ∃ next, succ a = .ok next ∧ b ∈ next

/-- **The result is what is reachable from the frontier.** -/
theorem mem_closure_iff {fuel : Nat} {frontier result : List α}
    (h : closure succ fuel [] frontier = .ok (some result)) (a : α) :
    a ∈ result ↔ ∃ r ∈ frontier, Relation.ReflTransGen (Follows succ) r a := by
  constructor
  · intro ha
    rcases closure_sound h a ha with hv | hreach
    · cases hv
    · exact hreach
  · rintro ⟨r, hr, hreach⟩
    induction hreach with
    | refl => exact closure_frontier h r hr
    | @tail b c _ hstep ih =>
      obtain ⟨next, hnext, hc⟩ := hstep
      obtain ⟨next', hnext', hall⟩ := closure_closed h b ih List.not_mem_nil
      rw [hnext] at hnext'
      cases hnext'
      exact hall c hc

/-- **Where everything met has successors, no lookup fails.** -/
theorem closure_defined {P : α → Prop}
    (hP : ∀ a, P a → ∃ next, succ a = .ok next ∧ ∀ b ∈ next, P b) :
    ∀ {fuel : Nat} {visited frontier : List α}, (∀ a ∈ frontier, P a) →
      ∃ result, closure succ fuel visited frontier = .ok result
  | 0, visited, frontier, _ => ⟨none, by unfold closure; rfl⟩
  | fuel + 1, visited, [], _ => ⟨some visited, by unfold closure; rfl⟩
  | fuel + 1, visited, a :: frontier, hf => by
    have hrest : ∀ b ∈ frontier, P b := fun b hb => hf b (.tail _ hb)
    unfold closure
    split
    · exact closure_defined hP hrest
    · obtain ⟨next, hnext, hall⟩ := hP a (hf a (.head _))
      rw [hnext, ok_bind]
      refine closure_defined hP fun b hb => ?_
      rcases List.mem_append.mp hb with hb | hb
      · exact hall b hb
      · exact hrest b hb

/-- What a pass makes smaller: the frontier, and the items not seen yet. -/
def closureWork (items : List α) (width : Nat) (visited frontier : List α) : Nat :=
  frontier.length + width * items.countP (fun a => a ∉ visited)

theorem countP_add_one_le {β : Type} {p q : β → Bool} :
    ∀ {items : List β} {a : β}, (∀ b ∈ items, q b = true → p b = true) → a ∈ items →
      p a = true → q a = false → items.countP q + 1 ≤ items.countP p
  | [], a, _, ha, _, _ => absurd ha List.not_mem_nil
  | b :: items, a, himp, ha, hp, hq => by
    have hle : items.countP q ≤ items.countP p :=
      List.countP_mono_left fun c hc => himp c (.tail _ hc)
    have hb := himp b (.head _)
    rw [List.countP_cons, List.countP_cons]
    rcases List.mem_cons.mp ha with rfl | ha
    · simp only [hp, hq, if_true, Bool.false_eq_true, if_false]
      omega
    · have := countP_add_one_le (fun c hc => himp c (.tail _ hc)) ha hp hq
      cases hqb : q b with
      | true =>
        simp only [hb hqb, if_true]
        omega
      | false =>
        simp only [Bool.false_eq_true, if_false]
        split <;> omega

theorem countP_unseen {items visited : List α} {a : α} (ha : a ∈ items) (hn : a ∉ visited) :
    items.countP (fun b => b ∉ a :: visited) + 1 ≤ items.countP (fun b => b ∉ visited) := by
  refine countP_add_one_le (fun b _ hb => ?_) ha (by simpa using hn) (by simp)
  simp only [List.mem_cons, not_or, decide_eq_true_eq] at hb ⊢
  exact hb.2

theorem countP_unseen_le (items visited : List α) (a : α) :
    items.countP (fun b => b ∉ a :: visited) ≤ items.countP (fun b => b ∉ visited) := by
  refine List.countP_mono_left fun b _ hb => ?_
  simp only [List.mem_cons, not_or, decide_eq_true_eq] at hb ⊢
  exact hb.2

/-- **Enough fuel**, where the items with successors are in a list and have at most `width` of them.
-/
theorem closure_ends {items : List α} {width : Nat}
    (hsucc : ∀ a next, succ a = .ok next → next = [] ∨ a ∈ items ∧ next.length ≤ width) :
    ∀ {fuel : Nat} {visited frontier : List α}, closureWork items width visited frontier < fuel →
      closure succ fuel visited frontier ≠ .ok none
  | 0, visited, frontier, hf => by omega
  | fuel + 1, visited, [], hf => by
    unfold closure
    intro h
    cases h
  | fuel + 1, visited, a :: frontier, hf => by
    intro h
    unfold closure at h
    unfold closureWork at hf
    rw [List.length_cons] at hf
    split at h
    · have hless : closureWork items width visited frontier < fuel := by
        unfold closureWork
        omega
      exact closure_ends hsucc hless h
    · rename_i hn
      obtain ⟨next, hnext, hrest⟩ := bind_eq_ok.mp h
      have hless : closureWork items width (a :: visited) (next ++ frontier) < fuel := by
        unfold closureWork
        rw [List.length_append]
        rcases hsucc a next hnext with rfl | ⟨hitem, hwidth⟩
        · have hcount := Nat.mul_le_mul_left width (countP_unseen_le items visited a)
          rw [List.length_nil]
          omega
        · have hcount := Nat.mul_le_mul_left width (countP_unseen hitem hn)
          rw [Nat.mul_add, Nat.mul_one] at hcount
          omega
      exact closure_ends hsucc hless hrest

theorem closure_enough {items : List α} {width : Nat}
    (hsucc : ∀ a next, succ a = .ok next → a ∈ items ∧ next.length ≤ width)
    {fuel : Nat} {visited frontier : List α}
    (hf : closureWork items width visited frontier < fuel) :
    closure succ fuel visited frontier ≠ .ok none :=
  closure_ends (fun a next h => Or.inr (hsucc a next h)) hf

end Worklist

end Lithograph.Library
