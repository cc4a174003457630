/-
  File:      Lithograph/Query/GraphView.lean
  Subject:   The part of a graph a query may see (`query/graph.rs`).
-/
import Lithograph.Query.Error
import Lithograph.Storage.View

namespace Lithograph.Query

open Std Library Storage

structure ResolvedGraphView where
  required : List LabelId := []
  any : List LabelId := []
  anyRequired : Bool := false
  excluded : List LabelId := []
  requiredUnknown : Bool := false

namespace ResolvedGraphView

variable (view : ResolvedGraphView) (s : Snapshot)

def isFullGraph : Bool :=
  !view.requiredUnknown && view.required.isEmpty && !view.anyRequired && view.excluded.isEmpty

def visibleLabels (node : NodeId) : Bool :=
  let labels := s.visitNodeLabels node
  let requiredMatches := labels.countP view.required.contains
  let anyMatches := labels.any view.any.contains
  let excluded := labels.any view.excluded.contains
  requiredMatches == view.required.length && (!view.anyRequired || anyMatches) && !excluded

def visibleExistingNode (node : NodeId) : Bool :=
  if view.requiredUnknown then false
  else if view.isFullGraph then true
  else view.visibleLabels s node

/-- `visible_node_controlled`. -/
def visibleNode (node : NodeId) : Bool :=
  if view.requiredUnknown || !s.nodeExists node then false
  else view.visibleExistingNode s node

/-- `visible_relationship_controlled`. -/
def visibleRelationship (relationship : RelationshipRecord) : Bool :=
  view.visibleNode s relationship.source && view.visibleNode s relationship.target

variable {view s}

theorem visibleNode_exists {node : NodeId} (h : view.visibleNode s node = true) :
    s.nodeExists node = true := by
  unfold visibleNode at h
  cases hnode : s.nodeExists node with
  | true => rfl
  | false => simp [hnode] at h

theorem visibleNode_full (hfull : view.isFullGraph = true) (node : NodeId) :
    view.visibleNode s node = s.nodeExists node := by
  have hknown : view.requiredUnknown = false := by
    unfold isFullGraph at hfull
    simp only [Bool.and_eq_true, Bool.not_eq_true'] at hfull
    exact hfull.1.1.1
  unfold visibleNode visibleExistingNode
  rw [hfull, hknown]
  cases s.nodeExists node <;> rfl

end ResolvedGraphView

end Lithograph.Query
