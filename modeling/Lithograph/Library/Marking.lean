/-
  File:      Lithograph/Library/Marking.lean
  Subject:   A search that marks an item when it is pushed, not when it is popped.

  * **`explore_reaches`**: with fuel for all items the search answers, and has seen as many items as
    there are exactly where all are reachable from its root.
-/
import Lithograph.Library.Worklist

namespace Lithograph.Library

section Marking

variable {α : Type} [DecidableEq α]

/-- Pushes what was not seen. -/
def mark (next : List α) (seen pending : List α) : List α × List α :=
  next.foldl (fun state b => if b ∈ state.1 then state else (b :: state.1, b :: state.2))
    (seen, pending)

/-- The loop; `none` where an item has no successors to look up. -/
def explore (succ : α → Option (List α)) : Nat → List α → List α → Option (List α)
  | 0, seen, _ => some seen
  | _ + 1, seen, [] => some seen
  | fuel + 1, seen, a :: pending =>
    match succ a with
    | none => none
    | some next =>
      let marked := mark next seen pending
      explore succ fuel marked.1 marked.2

theorem mark_cons (b : α) (next seen pending : List α) :
    mark (b :: next) seen pending =
      if b ∈ seen then mark next seen pending else mark next (b :: seen) (b :: pending) := by
  by_cases hb : b ∈ seen
  · simp only [mark, List.foldl_cons, if_pos hb]
  · simp only [mark, List.foldl_cons, if_neg hb]

/-- Pushing marks the items that were not seen, each once. -/
theorem mark_spec : ∀ (next seen pending : List α), seen.Nodup →
    ∃ fresh : List α, mark next seen pending = (fresh ++ seen, fresh ++ pending) ∧
      (fresh ++ seen).Nodup ∧ (∀ b ∈ fresh, b ∈ next) ∧ ∀ b ∈ next, b ∈ fresh ++ seen
  | [], seen, pending, hseen =>
    ⟨[], rfl, hseen, fun _ h => h, fun _ h => absurd h List.not_mem_nil⟩
  | b :: next, seen, pending, hseen => by
    by_cases hb : b ∈ seen
    · obtain ⟨fresh, hmark, hnodup, hfrom, hall⟩ := mark_spec next seen pending hseen
      refine ⟨fresh, ?_, hnodup, fun c hc => .tail _ (hfrom c hc), ?_⟩
      · rw [mark_cons, if_pos hb]
        exact hmark
      · exact List.forall_mem_cons.mpr ⟨List.mem_append_right _ hb, hall⟩
    · obtain ⟨fresh, hmark, hnodup, hfrom, hall⟩ :=
        mark_spec next (b :: seen) (b :: pending) (List.nodup_cons.mpr ⟨hb, hseen⟩)
      refine ⟨fresh ++ [b], ?_, ?_, ?_, ?_⟩
      · rw [mark_cons, if_neg hb, hmark]
        simp
      · simpa using hnodup
      · intro c hc
        rcases List.mem_append.mp hc with hc | hc
        · exact .tail _ (hfrom c hc)
        · rw [List.mem_singleton.mp hc]
          exact .head _
      · refine List.forall_mem_cons.mpr ⟨by simp, fun c hc => ?_⟩
        have h := hall c hc
        simpa using h

/-- One item is among the successors of another. -/
def Succeeds (succ : α → Option (List α)) (a b : α) : Prop := ∃ next, succ a = some next ∧ b ∈ next

/-- What the search keeps: it has seen what is pending, and the successors of what is not. -/
structure Exploring (succ : α → Option (List α)) (items : List α) (root : α)
    (seen pending : List α) : Prop where
  nodup : seen.Nodup
  within : ∀ a ∈ seen, a ∈ items
  reached : ∀ a ∈ seen, Relation.ReflTransGen (Succeeds succ) root a
  pushed : ∀ a ∈ pending, a ∈ seen
  closed : ∀ a ∈ seen, a ∉ pending → ∀ next, succ a = some next → ∀ b ∈ next, b ∈ seen

variable {succ : α → Option (List α)} {items : List α} {root : α}

/-- What is left to do: the items not seen, and those that wait. -/
def toExplore (items seen pending : List α) : Nat :=
  items.countP (fun b => b ∉ seen) + pending.length

theorem countP_fresh {seen : List α} : ∀ {fresh : List α}, (fresh ++ seen).Nodup →
    (∀ b ∈ fresh, b ∈ items) →
    items.countP (fun b => b ∉ fresh ++ seen) + fresh.length ≤ items.countP (fun b => b ∉ seen)
  | [], _, _ => le_rfl
  | b :: fresh, hnodup, hitems => by
    obtain ⟨hb, hnodup⟩ := List.nodup_cons.mp hnodup
    have hstep : items.countP (fun c => c ∉ b :: (fresh ++ seen)) <
        items.countP (fun c => c ∉ fresh ++ seen) := countP_unseen (hitems b (.head _)) hb
    have hrest := countP_fresh hnodup fun c hc => hitems c (.tail _ hc)
    rw [List.length_cons, List.cons_append]
    omega

theorem Exploring.step (hsucc : ∀ a ∈ items, ∃ next, succ a = some next ∧ ∀ b ∈ next, b ∈ items)
    {seen pending : List α} {a : α} (h : Exploring succ items root seen (a :: pending)) :
    ∃ next, succ a = some next ∧
      Exploring succ items root (mark next seen pending).1 (mark next seen pending).2 ∧
      toExplore items (mark next seen pending).1 (mark next seen pending).2 <
        toExplore items seen (a :: pending) ∧
      ∀ b ∈ seen, b ∈ (mark next seen pending).1 := by
  obtain ⟨next, hnext, hitems⟩ := hsucc a (h.within a (h.pushed a (.head _)))
  obtain ⟨fresh, hmark, hnodup, hfrom, hall⟩ := mark_spec next seen pending h.nodup
  refine ⟨next, hnext, ?_, ?_, ?_⟩
  · rw [hmark]
    refine ⟨hnodup, fun b hb => ?_, fun b hb => ?_, fun b hb => ?_,
      fun b hb hpending next' hnext' c hc => ?_⟩
    · rcases List.mem_append.mp hb with hb | hb
      · exact hitems b (hfrom b hb)
      · exact h.within b hb
    · rcases List.mem_append.mp hb with hb | hb
      · exact (h.reached a (h.pushed a (.head _))).tail ⟨next, hnext, hfrom b hb⟩
      · exact h.reached b hb
    · rcases List.mem_append.mp hb with hb | hb
      · exact List.mem_append_left _ hb
      · exact List.mem_append_right _ (h.pushed b (.tail _ hb))
    · have hbseen : b ∈ seen := by
        rcases List.mem_append.mp hb with hb | hb
        · exact absurd (List.mem_append_left _ hb) hpending
        · exact hb
      by_cases hba : b = a
      · rw [hba, hnext] at hnext'
        cases hnext'
        exact hall c hc
      · refine List.mem_append_right _ (h.closed b hbseen (fun hmem => ?_) next' hnext' c hc)
        rcases List.mem_cons.mp hmem with hmem | hmem
        · exact hba hmem
        · exact hpending (List.mem_append_right _ hmem)
  · rw [hmark]
    have hfresh : ∀ b ∈ fresh, b ∈ items := fun b hb => hitems b (hfrom b hb)
    have hcount := countP_fresh hnodup hfresh
    simp only [toExplore, List.length_append, List.length_cons]
    omega
  · rw [hmark]
    exact fun b hb => List.mem_append_right _ hb

theorem explore_ends
    (hsucc : ∀ a ∈ items, ∃ next, succ a = some next ∧ ∀ b ∈ next, b ∈ items) :
    ∀ {fuel : Nat} {seen pending : List α}, Exploring succ items root seen pending →
      toExplore items seen pending < fuel →
      ∃ result, explore succ fuel seen pending = some result ∧ Exploring succ items root result [] ∧
        ∀ b ∈ seen, b ∈ result
  | 0, _, _, _, hf => absurd hf (Nat.not_lt_zero _)
  | fuel + 1, seen, [], h, _ => ⟨seen, rfl, h, fun _ hb => hb⟩
  | fuel + 1, seen, a :: pending, h, hf => by
    obtain ⟨next, hnext, hstep, hless, hkeeps⟩ := h.step hsucc
    have hfuel : toExplore items (mark next seen pending).1 (mark next seen pending).2 < fuel := by
      omega
    obtain ⟨result, hresult, hexplored, hmore⟩ := explore_ends hsucc hstep hfuel
    refine ⟨result, ?_, hexplored, fun b hb => hmore b (hkeeps b hb)⟩
    simp only [explore, hnext]
    exact hresult

/-- **The search sees every item exactly where all are reachable from the root.** -/
theorem explore_reaches
    (hsucc : ∀ a ∈ items, ∃ next, succ a = some next ∧ ∀ b ∈ next, b ∈ items)
    (hitems : items.Nodup) (hroot : root ∈ items) {fuel : Nat} (hf : items.length < fuel) :
    ∃ result, explore succ fuel [root] [root] = some result ∧
      (result.length = items.length ↔
        ∀ a ∈ items, Relation.ReflTransGen (Succeeds succ) root a) := by
  have hstart : Exploring succ items root [root] [root] :=
    ⟨by simp, fun a ha => List.mem_singleton.mp ha ▸ hroot,
      fun a ha => List.mem_singleton.mp ha ▸ .refl, fun _ ha => ha, fun a ha hn => absurd ha hn⟩
  have hless : toExplore items [root] [root] < fuel := by
    have hcount : items.countP (fun b => b ∉ [root] ++ []) + [root].length ≤
        items.countP (fun b => b ∉ ([] : List α)) :=
      countP_fresh (by simp) fun a ha => List.mem_singleton.mp ha ▸ hroot
    have hle : items.countP (fun b => b ∉ ([] : List α)) ≤ items.length := List.countP_le_length
    unfold toExplore
    simp only [List.append_nil, List.length_singleton] at hcount ⊢
    omega
  obtain ⟨result, hresult, hexplored, hseen⟩ := explore_ends hsucc hstart hless
  refine ⟨result, hresult, fun hcount a ha => ?_, fun hreach => ?_⟩
  · have hperm := (List.subperm_of_subset hexplored.nodup hexplored.within).perm_of_length_le
      (Nat.le_of_eq hcount.symm)
    exact hexplored.reached a (hperm.mem_iff.mpr ha)
  · have hall : ∀ a, Relation.ReflTransGen (Succeeds succ) root a → a ∈ result := by
      intro a hreached
      induction hreached with
      | refl => exact hseen root (.head _)
      | tail _ hstep ih =>
        obtain ⟨next, hnext, hb⟩ := hstep
        exact hexplored.closed _ ih List.not_mem_nil next hnext _ hb
    exact (List.Perm.length_eq ((List.perm_ext_iff_of_nodup hexplored.nodup hitems).mpr fun a =>
      ⟨hexplored.within a, fun ha => hall a (hreach a ha)⟩))

end Marking

end Lithograph.Library
