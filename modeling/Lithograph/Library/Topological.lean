/-
  File:      Lithograph/Library/Topological.lean
  Subject:   The order in which a finite acyclic graph is emptied, ties broken by a key.

  A node is open once all nodes in front of it are done.

  * `Lists.split`: cut anywhere, its rest is the order of what is then left.
-/
import Mathlib.Data.Fintype.Order
import Mathlib.Logic.Relation
import Mathlib.Order.WellFounded
import Lithograph.Library.Overlay

namespace Lithograph.Library

open Std

/-- A finite graph. `front a b`: the node `a` comes before the node `b`. -/
structure Graph (α κ : Type) where
  nodes : List α
  front : α → α → Prop
  key : α → κ

namespace Graph

section

variable {α κ : Type} [Ord κ] {g : Graph α κ}

/-- All nodes in front of it are done, and it is not. -/
def Open (g : Graph α κ) (done : List α) (a : α) : Prop :=
  a ∈ g.nodes ∧ a ∉ done ∧ ∀ b ∈ g.nodes, g.front b a → b ∈ done

/-- The open node with the least key. -/
def IsNext (g : Graph α κ) (done : List α) (a : α) : Prop :=
  g.Open done a ∧ ∀ b, g.Open done b → b ≠ a → compare (g.key a) (g.key b) = .lt

/-- The order of the nodes that are left. -/
inductive Lists (g : Graph α κ) : List α → List α → Prop where
  | nil {done : List α} : (∀ a ∈ g.nodes, a ∈ done) → Lists g done []
  | cons {done : List α} {a : α} {rest : List α} :
      g.IsNext done a → Lists g (a :: done) rest → Lists g done (a :: rest)

/-- What is done has everything in front of it done. -/
def Closed (g : Graph α κ) (done : List α) : Prop :=
  ∀ a ∈ done, ∀ b ∈ g.nodes, g.front b a → b ∈ done

/-! ## 1. Open nodes -/

omit [Ord κ] in
theorem Closed.cons {done : List α} {a : α} (h : g.Closed done) (ha : g.Open done a) :
    g.Closed (a :: done) := by
  intro b hb c hc hfront
  rcases List.mem_cons.mp hb with rfl | hb
  · exact .tail _ (ha.2.2 c hc hfront)
  · exact .tail _ (h b hb c hc hfront)

omit [Ord κ] in
/-- **While a node is left, one is open.** -/
theorem exists_open (hacyclic : ∀ a, ¬ Relation.TransGen g.front a a) {done : List α} {a : α}
    (ha : a ∈ g.nodes) (hleft : a ∉ done) : ∃ b, g.Open done b := by
  classical
  let Left := {b : α // b ∈ g.nodes ∧ b ∉ done}
  have hfinite : Finite Left := by
    refine (List.finite_toSet g.nodes).subset fun b hb => ?_
    exact hb.1
  let before : Left → Left → Prop := fun b c => Relation.TransGen g.front b.1 c.1
  have hirrefl : Std.Irrefl before := ⟨fun b => hacyclic b.1⟩
  obtain ⟨b, -, hmin⟩ := (Finite.wellFounded_of_trans_of_irrefl before).has_min Set.univ
    ⟨⟨a, ha, hleft⟩, trivial⟩
  refine ⟨b.1, b.2.1, b.2.2, fun c hc hfront => ?_⟩
  by_cases hdone : c ∈ done
  · exact hdone
  · exact absurd (Relation.TransGen.single hfront) (hmin ⟨c, hc, hdone⟩ trivial)

/-! ## 2. The order -/

variable {done rest : List α}

/-- **The order names each node that is left.** -/
theorem Lists.mem_iff (h : g.Lists done rest) (a : α) : a ∈ rest ↔ a ∈ g.nodes ∧ a ∉ done := by
  induction h with
  | nil hall =>
    constructor
    · intro ha
      cases ha
    · rintro ⟨ha, hleft⟩
      exact absurd (hall a ha) hleft
  | @cons done b rest hnext hrest ih =>
    rw [List.mem_cons, ih, List.mem_cons]
    constructor
    · rintro (rfl | ⟨ha, hleft⟩)
      · exact ⟨hnext.1.1, hnext.1.2.1⟩
      · exact ⟨ha, fun hd => hleft (Or.inr hd)⟩
    · rintro ⟨ha, hleft⟩
      by_cases hab : a = b
      · exact Or.inl hab
      · exact Or.inr ⟨ha, fun hd => hd.elim hab hleft⟩

/-- **It names no node twice.** -/
theorem Lists.nodup (h : g.Lists done rest) : rest.Nodup := by
  induction h with
  | nil hall => exact List.nodup_nil
  | @cons done b rest hnext hrest ih =>
    rw [List.nodup_cons]
    refine ⟨fun hb => ?_, ih⟩
    exact ((hrest.mem_iff b).mp hb).2 (.head _)

omit [Ord κ] in
theorem Closed.above (hdown : ∀ a ∈ g.nodes, ∀ b, g.front a b → b ∈ g.nodes) {done : List α}
    (h : g.Closed done) {a b : α} (hb : b ∈ g.nodes) (hfront : Relation.TransGen g.front b a)
    (ha : a ∈ done) : b ∈ done := by
  induction hfront using Relation.TransGen.head_induction_on with
  | single hstep => exact h a ha _ hb hstep
  | head hstep _ ih => exact h _ (ih (hdown _ hb _ hstep)) _ hb hstep

/-- **No node comes behind one that it is in front of.** -/
theorem Lists.ordered (hdown : ∀ a ∈ g.nodes, ∀ b, g.front a b → b ∈ g.nodes)
    (h : g.Lists done rest) (hclosed : g.Closed done) :
    rest.Pairwise fun a b => ¬ Relation.TransGen g.front b a := by
  induction h with
  | nil hall => exact List.Pairwise.nil
  | @cons done b rest hnext hrest ih =>
    have hclosed' := hclosed.cons hnext.1
    rw [List.pairwise_cons]
    refine ⟨fun c hc hfront => ?_, ih hclosed'⟩
    obtain ⟨hnode, hleft⟩ := (hrest.mem_iff c).mp hc
    exact hleft (hclosed'.above hdown hnode hfront (.head _))

/-- **Cut anywhere, its rest is the order of what is left.** -/
theorem Lists.split {front rest done : List α} (h : g.Lists done (front ++ rest)) :
    g.Lists (front.reverse ++ done) rest := by
  induction front generalizing done with
  | nil => exact h
  | cons a front ih =>
    cases h with
    | cons hnext hrest =>
      have := ih hrest
      simpa using this

theorem Lists.next {front rest done : List α} {a : α} (h : g.Lists done (front ++ a :: rest)) :
    g.IsNext (front.reverse ++ done) a := by
  cases h.split with
  | cons hnext _ => exact hnext

end

end Graph

end Lithograph.Library
