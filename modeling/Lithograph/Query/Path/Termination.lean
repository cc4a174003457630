/-
  File:      Lithograph/Query/Path/Termination.lean
  Subject:   When a `MATCH` comes to its end.

  * `executeFragments_settles`: where a match enters no group without a limit whose body needs no
    relationship, the relationships of the graph bound its rounds.
-/
import Lithograph.Library.Worklist
import Lithograph.Query.Path.Execute

namespace Lithograph.Query.Path

open Std Library Storage

variable {A X V : Type}

/-! ## 1. Settled computations -/

/-- The computation came to an end: with a result or with an error of the query. -/
def Settles {α : Type} (x : MatchResult α) : Prop := x ≠ .error .running

variable {α : Type} {depth maximum limit : Nat} {record : RelationshipRecord} {bounds : Bounds}

theorem settles_ok (a : α) : Settles (.ok a : MatchResult α) := nofun

theorem settles_pure (a : α) : Settles (pure a : MatchResult α) := nofun

theorem settles_failed (e : QueryError) : Settles (.error (.failed e) : MatchResult α) := nofun

theorem settles_ofQuery (x : QueryResult α) : Settles (ofQuery x) := by
  cases x with
  | ok a => exact settles_ok a
  | error e => exact settles_failed e

theorem settles_bind {β : Type} {x : MatchResult α} {f : α → MatchResult β} (hx : Settles x)
    (hf : ∀ a, x = .ok a → Settles (f a)) : Settles (x >>= f) := by
  cases x with
  | ok a => exact hf a rfl
  | error e =>
    intro h
    apply hx
    cases h
    rfl

theorem settles_map {β : Type} {x : MatchResult α} {f : α → β} (hx : Settles x) :
    Settles (x.map f) := by
  cases x with
  | ok a => exact settles_ok (f a)
  | error e =>
    intro h
    apply hx
    cases h
    rfl

theorem settles_mapM {α β : Type} {f : α → MatchResult β} (hf : ∀ a, Settles (f a)) :
    ∀ l : List α, Settles (l.mapM f)
  | [] => settles_pure []
  | a :: l => by
    rw [List.mapM_cons]
    exact settles_bind (hf a) fun _ _ => settles_bind (settles_mapM hf l) fun _ _ => settles_pure _

theorem settles_foldlM {α β : Type} {f : β → α → MatchResult β} (hf : ∀ b a, Settles (f b a)) :
    ∀ (l : List α) (b : β), Settles (l.foldlM f b)
  | [], b => settles_pure b
  | a :: l, b => by
    exact settles_bind (hf b a) fun b' _ => settles_foldlM hf l b'

theorem settles_expandStates_mem {α β : Type} {step : α → MatchResult (List β)} :
    ∀ {states : List α}, (∀ a ∈ states, Settles (step a)) → Settles (expandStates step states)
  | [], _ => settles_ok []
  | state :: rest, hstep => by
    obtain ⟨hhere, hrest⟩ := List.forall_mem_cons.mp hstep
    unfold expandStates
    exact settles_bind hhere fun _ _ =>
      settles_bind (settles_expandStates_mem hrest) fun _ _ => settles_pure _

theorem settles_expandStates {α β : Type} {step : α → MatchResult (List β)}
    (hstep : ∀ a, Settles (step a)) (states : List α) : Settles (expandStates step states) :=
  settles_expandStates_mem fun a _ => hstep a

theorem expandStates_mem {α β : Type} {step : α → MatchResult (List β)} :
    ∀ {states : List α} {out : List β}, expandStates step states = .ok out →
      ∀ t ∈ out, ∃ s ∈ states, ∃ r, step s = .ok r ∧ t ∈ r
  | [], out, h, t, ht => by
    cases h
    cases ht
  | s :: rest, out, h, t, ht => by
    unfold expandStates at h
    obtain ⟨expanded, he, h⟩ := bind_eq_ok.mp h
    obtain ⟨others, ho, h⟩ := bind_eq_ok.mp h
    cases h
    rcases List.mem_append.mp ht with ht | ht
    · exact ⟨s, .head _, expanded, he, ht⟩
    · obtain ⟨s', hs', r, hr, ht⟩ := expandStates_mem ho t ht
      exact ⟨s', .tail _ hs', r, hr, ht⟩

/-! ## 2. Steps that always settle -/

variable (row : BindingRow V)

theorem bindNode_settles (name : Option Text) (id : NodeId) : Settles (row.bindNode name id) := by
  unfold BindingRow.bindNode
  repeat' split
  all_goals first | exact settles_ok _ | exact settles_failed _

theorem bindRelationship_settles (name : Option Text)
    (record : RelationshipRecord) : Settles (row.bindRelationship name record) := by
  unfold BindingRow.bindRelationship
  repeat' split
  all_goals first | exact settles_ok _ | exact settles_failed _

theorem bindPath_settles [DecidableEq V] (name : Text) (nodes : List NodeId)
    (relationships : List RelationshipRecord) :
    Settles (row.bindPath name nodes relationships) := by
  unfold BindingRow.bindPath
  repeat' split
  all_goals first | exact settles_ok _ | exact settles_failed _

section Steps

variable (context : PathContext A X V) (mode : PathModeKind)

theorem matchNode_settles (spec : NodePattern A X) (state : PathState V) (id : NodeId) :
    Settles (matchNode context spec state id) := by
  unfold matchNode
  refine settles_bind (settles_ofQuery _) fun visible _ => ?_
  split
  · refine settles_bind (bindNode_settles _ _ _) fun bound _ => ?_
    split
    · exact settles_pure _
    · refine settles_bind (settles_ofQuery _) fun fits _ => ?_
      split <;> exact settles_pure _
  · exact settles_pure _

theorem matchCandidates_settles (spec : NodePattern A X) (state : PathState V) :
    ∀ ids : List NodeId, Settles (matchCandidates context spec state ids)
  | [] => settles_ok []
  | id :: rest => by
    unfold matchCandidates
    exact settles_bind (matchNode_settles context spec state id) fun _ _ =>
      settles_bind (matchCandidates_settles spec state rest) fun _ _ => settles_pure _

theorem matchStartNode_settles (spec : NodePattern A X) (state : PathState V) :
    Settles (matchStartNode context spec state) := by
  unfold matchStartNode
  split
  · exact settles_map (matchNode_settles context spec state _)
  · split
    · exact settles_map (matchNode_settles context spec state _)
    · exact settles_ok []
    · exact settles_failed _
    · exact matchCandidates_settles context spec state _

theorem tryCandidate_settles (relationship : RelationshipPattern A X) (state : PathState V)
    (current : NodeId) (record : RelationshipRecord) :
    Settles (tryCandidate context mode relationship state current record) := by
  unfold tryCandidate candidateNextNode
  refine settles_bind (settles_bind (settles_ofQuery _) fun visible _ => ?_) fun next _ => ?_
  · dsimp only
    split <;> exact settles_pure _
  · split
    · exact settles_pure _
    · unfold expandCandidate
      refine settles_bind (bindRelationship_settles _ _ _) fun bound _ => ?_
      split
      · exact settles_pure _
      · refine settles_bind (settles_ofQuery _) fun fits _ => ?_
        split <;> exact settles_pure _

theorem tryCandidates_settles (relationship : RelationshipPattern A X) (state : PathState V)
    (current : NodeId) : ∀ records : List RelationshipRecord,
      Settles (tryCandidates context mode relationship state current records)
  | [] => settles_ok []
  | record :: rest => by
    unfold tryCandidates
    exact settles_bind (tryCandidate_settles context mode relationship state current record)
      fun _ _ => settles_bind (tryCandidates_settles relationship state current rest)
        fun _ _ => settles_pure _

theorem expandOne_settles (relationship : RelationshipPattern A X) (state : PathState V) :
    Settles (expandOne context mode relationship state) := by
  unfold expandOne
  split
  · exact settles_failed _
  · exact tryCandidates_settles context mode relationship state _ _

theorem effectiveMaximum_settles (bounds : Bounds) : Settles (effectiveMaximum context bounds) := by
  unfold effectiveMaximum
  repeat' split
  all_goals first | exact settles_ok _ | exact settles_failed _

theorem materializeGroupValues_settles (values : List (BindingValue V)) :
    Settles (materializeGroupValues context values) := by
  unfold materializeGroupValues
  exact settles_bind (settles_mapM (fun _ => settles_ofQuery _) _) fun _ _ => settles_pure _

variable (chain : RelationshipChain A X)

theorem completeRepeatedState_settles (state : PathState V)
    (collected : List (BindingValue V)) (prebound : Option (BindingValue V)) (endNode : NodeId) :
    Settles (completeRepeatedState context chain state collected prebound endNode) := by
  unfold completeRepeatedState
  refine settles_bind (matchNode_settles context _ _ _) fun matched _ => ?_
  split
  · exact settles_pure _
  · exact settles_pure _
  · unfold bindRepeatedRelationshipValues
    refine settles_bind (materializeGroupValues_settles context _) fun value _ => ?_
    split
    · refine settles_bind (settles_ofQuery _) fun equal _ => ?_
      split <;> exact settles_pure _
    · exact settles_pure _
    · exact settles_failed _
    · exact settles_pure _

theorem advanceRepeatedState_settles (state : PathState V) (collected : List (BindingValue V)) :
    Settles (advanceRepeatedState context mode chain state collected) := by
  unfold advanceRepeatedState
  exact settles_bind (expandOne_settles context mode _ _) fun _ _ => settles_pure _

theorem whileBelow_settles {next : MatchResult (List α)} (h : Settles next) :
    Settles (whileBelow depth maximum next) := by
  unfold whileBelow
  split
  · exact h
  · exact settles_ok []

theorem visitRepeated_settles (maximum : Nat) (prebound : Option (BindingValue V)) (depth : Nat)
    (item : PathState V × List (BindingValue V)) :
    Settles (visitRepeated context mode chain maximum prebound depth item) := by
  have hnext : Settles (whileBelow depth maximum
      (advanceRepeatedState context mode chain item.1 item.2)) :=
    whileBelow_settles (advanceRepeatedState_settles context mode chain item.1 item.2)
  unfold visitRepeated
  split
  · split
    · exact settles_ok _
    · exact settles_bind (completeRepeatedState_settles context _ _ _ _ _) fun _ _ =>
        settles_bind hnext fun _ _ => settles_pure _
  · exact settles_bind hnext fun _ _ => settles_pure _

theorem matchEnds_settles (endNode : NodePattern A X) :
    ∀ states : List (PathState V), Settles (matchEnds context endNode states)
  | [] => settles_ok []
  | state :: rest => by
    unfold matchEnds matchEnd
    refine settles_bind ?_ fun _ _ =>
      settles_bind (matchEnds_settles endNode rest) fun _ _ => settles_pure _
    split
    · exact settles_ok none
    · exact matchNode_settles context endNode state _

theorem completeDue_settles (minimum depth : Nat) (item : PathState V × CollectedBindings V) :
    Settles (completeDue context minimum depth item) := by
  unfold completeDue
  split
  · refine settles_map (settles_foldlM (fun state entry => ?_) _ _)
    unfold bindGroupValues
    exact settles_bind (materializeGroupValues_settles context _) fun _ _ => settles_pure _
  · exact settles_ok []

theorem closeIteration_settles (predicate : Option X) (names : List Text)
    (collected : CollectedBindings V) : ∀ states : List (PathState V),
      Settles (closeIteration context predicate names collected states)
  | [] => settles_ok []
  | state :: rest => by
    unfold closeIteration
    refine settles_bind (settles_ofQuery _) fun fits _ => ?_
    refine settles_bind (closeIteration_settles predicate names collected rest) fun _ _ => ?_
    split <;> exact settles_pure _

theorem visitQuantified_settles (bounds : Bounds) (predicate : Option X) (names : List Text)
    {body : List (PathState V) → MatchResult (List (PathState V))} {maximum : Nat}
    (hbody : 0 < maximum → ∀ states, Settles (body states)) (depth : Nat)
    (item : PathState V × CollectedBindings V) :
    Settles (visitQuantified context bounds predicate names body maximum depth item) := by
  unfold visitQuantified advanceQuantifiedState whileBelow
  refine settles_bind (completeDue_settles context _ _ _) fun _ _ => ?_
  refine settles_bind ?_ fun _ _ => settles_pure _
  split
  · rename_i hbelow
    exact settles_bind (hbody (Nat.zero_lt_of_lt hbelow) _) fun _ _ =>
      closeIteration_settles context _ _ _ _
  · exact settles_ok []

end Steps

/-! ## 3. Relationships are used up -/

/-- How many relationships of the graph are not used yet. -/
def unused (context : PathContext A X V) (state : PathState V) : Nat :=
  (context.graph.relationships.toList.map Prod.snd).countP fun record =>
    !state.row.usedRelationships.contains record.id

/-- How many relationships the graph has. -/
def relationshipCount (context : PathContext A X V) : Nat :=
  context.graph.relationships.toList.length

theorem unused_le (context : PathContext A X V) (state : PathState V) :
    unused context state ≤ relationshipCount context := by
  unfold unused relationshipCount
  exact Nat.le_trans List.countP_le_length (Nat.le_of_eq (List.length_map _))

variable {context : PathContext A X V}

theorem unused_congr {s s' : PathState V} (h : s'.row.usedRelationships = s.row.usedRelationships) :
    unused context s' = unused context s := by
  unfold unused
  rw [h]

theorem unused_advance {state : PathState V} {row : BindingRow V}
    {next : NodeId} (hrow : row.usedRelationships = state.row.usedRelationships)
    (hmem : record ∈ context.graph.relationships.toList.map Prod.snd)
    (hfresh : state.row.usedRelationships.contains record.id = false) :
    unused context (state.advance row record next) + 1 ≤ unused context state := by
  unfold unused
  refine countP_add_one_le (fun b _ hb => ?_) hmem (by simpa using hfresh) ?_
  · simp only [PathState.advance, hrow, ExtTreeMap.contains_insert, Bool.not_or,
      Bool.and_eq_true] at hb
    exact hb.2
  · simp [PathState.advance]

theorem bindNode_used {row row' : BindingRow V} {name : Option Text} {id : NodeId}
    (h : row.bindNode name id = .ok (some row')) :
    row'.usedRelationships = row.usedRelationships := by
  unfold BindingRow.bindNode at h
  split at h
  · cases h
    rfl
  · split at h
    · split at h
      · cases h
        rfl
      · cases h
    · cases h
    · cases h
    · cases h
      rfl

theorem bindRelationship_used {row row' : BindingRow V} {name : Option Text}
    (h : row.bindRelationship name record = .ok (some row')) :
    row'.usedRelationships = row.usedRelationships := by
  unfold BindingRow.bindRelationship at h
  split at h
  · cases h
    rfl
  · split at h
    · split at h
      · cases h
        rfl
      · cases h
    · cases h
    · cases h
    · cases h
      rfl

section Spending

variable {context : PathContext A X V} {mode : PathModeKind} {spec : NodePattern A X}

theorem matchNode_used {state state' : PathState V} {id : NodeId}
    (h : matchNode context spec state id = .ok (some state')) :
    state'.row.usedRelationships = state.row.usedRelationships := by
  unfold matchNode at h
  obtain ⟨visible, _, h⟩ := bind_eq_ok.mp h
  split at h
  · obtain ⟨bound, hbound, h⟩ := bind_eq_ok.mp h
    split at h
    · cases h
    · obtain ⟨fits, _, h⟩ := bind_eq_ok.mp h
      have hrow := bindNode_used hbound
      split at h
      · unfold PathState.arrive at h
        split at h
        · cases h
          exact hrow
        · split at h
          · cases h
            exact hrow
          · cases h
      · cases h
  · cases h

variable {state : PathState V} {out : List (PathState V)}

theorem map_toList_mem {x : MatchResult (Option (PathState V))}
    (h : x.map Option.toList = .ok out) (hs : state ∈ out) :
    x = .ok (some state) := by
  cases x with
  | error e => cases h
  | ok found =>
    cases h
    cases found with
    | none => cases hs
    | some s =>
      rcases List.mem_singleton.mp hs with rfl
      rfl

theorem matchCandidates_used :
    ∀ {ids : List NodeId} {out : List (PathState V)},
      matchCandidates context spec state ids = .ok out →
      ∀ s' ∈ out, s'.row.usedRelationships = state.row.usedRelationships
  | [], out, h, s', hs' => by
    cases h
    cases hs'
  | id :: rest, out, h, s', hs' => by
    unfold matchCandidates at h
    obtain ⟨matched, hm, h⟩ := bind_eq_ok.mp h
    obtain ⟨others, ho, h⟩ := bind_eq_ok.mp h
    cases h
    rcases List.mem_append.mp hs' with hs' | hs'
    · rw [Option.mem_toList] at hs'
      cases hs'
      exact matchNode_used hm
    · exact matchCandidates_used ho s' hs'

theorem matchStartNode_used (h : matchStartNode context spec state = .ok out) :
    ∀ s' ∈ out, s'.row.usedRelationships = state.row.usedRelationships := by
  intro s' hs'
  unfold matchStartNode at h
  split at h
  · exact matchNode_used (map_toList_mem h hs')
  · split at h
    · exact matchNode_used (map_toList_mem h hs')
    · cases h
      cases hs'
    · cases h
    · exact matchCandidates_used h s' hs'

variable {relationship : RelationshipPattern A X}

theorem tryCandidate_spends (hmode : context.matchMode = .differentRelationships)
    {state state' : PathState V} {current : NodeId}
    (hmem : record ∈ context.graph.relationships.toList.map Prod.snd)
    (h : tryCandidate context mode relationship state current record = .ok (some state')) :
    unused context state' + 1 ≤ unused context state := by
  unfold tryCandidate candidateNextNode at h
  obtain ⟨next, hnext, h⟩ := bind_eq_ok.mp h
  obtain ⟨visible, _, hnext⟩ := bind_eq_ok.mp hnext
  dsimp only at hnext
  split at hnext
  · cases hnext
    cases h
  · rename_i hno
    cases hnext
    have hfresh : state.row.usedRelationships.contains record.id = false := by
      cases hc : state.row.usedRelationships.contains record.id with
      | false => rfl
      | true => exact absurd (.inr (.inl ⟨hmode, hc⟩)) hno
    unfold expandCandidate at h
    obtain ⟨bound, hbound, h⟩ := bind_eq_ok.mp h
    split at h
    · cases h
    · obtain ⟨fits, _, h⟩ := bind_eq_ok.mp h
      split at h
      · cases h
        exact unused_advance (bindRelationship_used hbound) hmem hfresh
      · cases h

theorem tryCandidates_spends (hmode : context.matchMode = .differentRelationships)
    {current : NodeId} :
    ∀ {records : List RelationshipRecord} {out : List (PathState V)},
      (∀ record ∈ records, record ∈ context.graph.relationships.toList.map Prod.snd) →
      tryCandidates context mode relationship state current records = .ok out →
      ∀ s' ∈ out, unused context s' + 1 ≤ unused context state
  | [], out, _, h, s', hs' => by
    cases h
    cases hs'
  | record :: rest, out, hmem, h, s', hs' => by
    unfold tryCandidates at h
    obtain ⟨expanded, he, h⟩ := bind_eq_ok.mp h
    obtain ⟨others, ho, h⟩ := bind_eq_ok.mp h
    cases h
    rcases List.mem_append.mp hs' with hs' | hs'
    · rw [Option.mem_toList] at hs'
      cases hs'
      exact tryCandidate_spends hmode (hmem record (.head _)) he
    · exact tryCandidates_spends hmode (fun r hr => hmem r (.tail _ hr)) ho s' hs'

theorem expandOne_spends (hmode : context.matchMode = .differentRelationships)
    (h : expandOne context mode relationship state = .ok out) :
    ∀ s' ∈ out, unused context s' + 1 ≤ unused context state := by
  unfold expandOne at h
  split at h
  · cases h
  · exact tryCandidates_spends hmode (fun r hr => (List.mem_filter.mp hr).1) h

theorem collect_used (state : PathState V) (collected : List (BindingValue V))
    (name : Option Text) :
    (state.collect collected name).1.row.usedRelationships = state.row.usedRelationships := by
  unfold PathState.collect
  split
  · rfl
  · split <;> rfl

theorem clear_used (state : PathState V) (name : Option Text) :
    (state.clear name).row.usedRelationships = state.row.usedRelationships := by
  unfold PathState.clear
  split <;> rfl

variable {chain : RelationshipChain A X}

theorem advanceRepeatedState_spends (hmode : context.matchMode = .differentRelationships)
    {collected : List (BindingValue V)}
    {out : List (PathState V × List (BindingValue V))}
    (h : advanceRepeatedState context mode chain state collected = .ok out) :
    ∀ item ∈ out, unused context item.1 + 1 ≤ unused context state := by
  intro item hitem
  unfold advanceRepeatedState at h
  obtain ⟨expanded, he, h⟩ := bind_eq_ok.mp h
  cases h
  obtain ⟨next, hnext, rfl⟩ := List.mem_map.mp hitem
  have hspent := expandOne_spends hmode he next hnext
  rw [unused_congr (collect_used next _ _)]
  rwa [unused_congr (clear_used state _)] at hspent

theorem completeRepeatedState_used {state state' : PathState V}
    {collected : List (BindingValue V)} {prebound : Option (BindingValue V)} {endNode : NodeId}
    (h : completeRepeatedState context chain state collected prebound endNode = .ok (some state')) :
    state'.row.usedRelationships = state.row.usedRelationships := by
  unfold completeRepeatedState at h
  obtain ⟨matched, hm, h⟩ := bind_eq_ok.mp h
  split at h
  · cases h
  · cases h
    exact matchNode_used hm
  · have hused := matchNode_used hm
    unfold bindRepeatedRelationshipValues at h
    obtain ⟨value, _, h⟩ := bind_eq_ok.mp h
    split at h
    · obtain ⟨equal, _, h⟩ := bind_eq_ok.mp h
      split at h
      · cases h
        exact hused
      · cases h
    · cases h
    · cases h
    · cases h
      exact hused

theorem whileBelow_mem {next : MatchResult (List α)} {out : List α} {a : α}
    (h : whileBelow depth maximum next = .ok out) (ha : a ∈ out) : next = .ok out := by
  unfold whileBelow at h
  split at h
  · exact h
  · cases h
    cases ha

/-- What a visit of a repeated relationship leaves and spends. -/
theorem visitRepeated_spends (hmode : context.matchMode = .differentRelationships)
    {prebound : Option (BindingValue V)}
    {item : PathState V × List (BindingValue V)}
    {r : List (PathState V) × List (PathState V × List (BindingValue V))}
    (h : visitRepeated context mode chain maximum prebound depth item = .ok r) :
    (∀ t ∈ r.1, chain.bounds.minimum ≤ depth ∧ unused context t = unused context item.1) ∧
      ∀ item' ∈ r.2, unused context item'.1 + 1 ≤ unused context item.1 := by
  unfold visitRepeated at h
  split at h
  · rename_i hdue
    split at h
    · cases h
      exact ⟨fun _ ht => absurd ht List.not_mem_nil, fun _ ht => absurd ht List.not_mem_nil⟩
    · obtain ⟨matched, hm, h⟩ := bind_eq_ok.mp h
      obtain ⟨next, hn, h⟩ := bind_eq_ok.mp h
      cases h
      refine ⟨fun t ht => ⟨hdue, ?_⟩, fun item' hi => ?_⟩
      · rw [Option.mem_toList] at ht
        cases ht
        exact unused_congr (completeRepeatedState_used hm)
      · exact advanceRepeatedState_spends hmode (whileBelow_mem hn hi) item' hi
  · obtain ⟨next, hn, h⟩ := bind_eq_ok.mp h
    cases h
    refine ⟨fun _ ht => absurd ht List.not_mem_nil, fun item' hi => ?_⟩
    exact advanceRepeatedState_spends hmode (whileBelow_mem hn hi) item' hi

theorem matchEnds_used {endNode : NodePattern A X} :
    ∀ {states out : List (PathState V)}, matchEnds context endNode states = .ok out →
      ∀ s' ∈ out, ∃ s ∈ states, s'.row.usedRelationships = s.row.usedRelationships
  | [], out, h, s', hs' => by
    cases h
    cases hs'
  | state :: rest, out, h, s', hs' => by
    unfold matchEnds at h
    obtain ⟨matched, hm, h⟩ := bind_eq_ok.mp h
    obtain ⟨others, ho, h⟩ := bind_eq_ok.mp h
    cases h
    rcases List.mem_append.mp hs' with hs' | hs'
    · rw [Option.mem_toList] at hs'
      cases hs'
      refine ⟨state, .head _, ?_⟩
      unfold matchEnd at hm
      split at hm
      · cases hm
      · exact matchNode_used hm
    · obtain ⟨s, hs, e⟩ := matchEnds_used ho s' hs'
      exact ⟨s, .tail _ hs, e⟩

theorem executeChain_spends (hmode : context.matchMode = .differentRelationships)
    (h : executeChain context mode chain state = .ok out) :
    ∀ s' ∈ out, unused context s' + chain.minimumRelationships ≤ unused context state := by
  unfold executeChain at h
  unfold RelationshipChain.minimumRelationships
  split at h
  · rename_i hgrouped
    unfold executeRepeatedRelationship at h
    obtain ⟨maximum, _, h⟩ := bind_eq_ok.mp h
    rw [if_pos hgrouped]
    refine walk_results
      (I := fun depth item => unused context item.1 + depth ≤ unused context state)
      (fun depth item r hI hv => ?_) (fun item hi => ?_)
      (fun _ ht => absurd ht List.not_mem_nil) h
    · obtain ⟨hres, hnext⟩ := visitRepeated_spends hmode hv
      refine ⟨fun t ht => ?_, fun item' hi => ?_⟩
      · obtain ⟨hdue, e⟩ := hres t ht
        omega
      · have := hnext item' hi
        omega
    · rcases List.mem_singleton.mp hi with rfl
      exact Nat.le_refl _
  · rename_i hsingle
    obtain ⟨expanded, he, h⟩ := bind_eq_ok.mp h
    rw [if_neg hsingle]
    intro s' hs'
    obtain ⟨s, hs, e⟩ := matchEnds_used h s' hs'
    rw [unused_congr e]
    exact expandOne_spends hmode he s hs

theorem executeChains_spends (hmode : context.matchMode = .differentRelationships) :
    ∀ {chains : List (RelationshipChain A X)} {states out : List (PathState V)},
      executeChains context mode chains states = .ok out →
      ∀ s' ∈ out, ∃ s ∈ states,
        unused context s' + (chains.map RelationshipChain.minimumRelationships).sum ≤
          unused context s
  | [], states, out, h, s', hs' => by
    cases h
    exact ⟨s', hs', Nat.le_refl _⟩
  | chain :: rest, states, out, h, s', hs' => by
    unfold executeChains at h
    obtain ⟨expanded, he, h⟩ := bind_eq_ok.mp h
    obtain ⟨s₁, hs₁, hle⟩ := executeChains_spends hmode h s' hs'
    obtain ⟨s, hs, r, hr, hmem⟩ := expandStates_mem he s₁ hs₁
    have := executeChain_spends hmode hr s₁ hmem
    refine ⟨s, hs, ?_⟩
    rw [List.map_cons, List.sum_cons]
    omega

theorem foldl_remove_used (names : List Text) (row : BindingRow V) :
    (names.foldl BindingRow.remove row).usedRelationships = row.usedRelationships := by
  induction names generalizing row with
  | nil => rfl
  | cons name names ih => exact ih _

theorem completeQuantifiedState_used {state state' : PathState V} {collected : CollectedBindings V}
    (h : completeQuantifiedState context state collected = .ok state') :
    state'.row.usedRelationships = state.row.usedRelationships := by
  unfold completeQuantifiedState at h
  refine list_foldlM_inv
    (fun s => s.row.usedRelationships = state.row.usedRelationships)
    (fun s entry s' _ hs hb => ?_) rfl h
  unfold bindGroupValues at hb
  obtain ⟨value, _, hb⟩ := bind_eq_ok.mp hb
  cases hb
  exact hs

theorem foldl_collect_used (names : List Text) (item : BindingRow V × CollectedBindings V) :
    (names.foldl collectBinding item).1.usedRelationships = item.1.usedRelationships := by
  induction names generalizing item with
  | nil => rfl
  | cons name names ih =>
    rw [List.foldl_cons, ih]
    unfold collectBinding
    split <;> rfl

variable {predicate : Option X} {names : List Text}

theorem closeIteration_used {collected : CollectedBindings V} :
    ∀ {states : List (PathState V)} {out : List (PathState V × CollectedBindings V)},
      closeIteration context predicate names collected states = .ok out →
      ∀ item ∈ out, ∃ s ∈ states, item.1.row.usedRelationships = s.row.usedRelationships
  | [], out, h, item, hi => by
    cases h
    cases hi
  | state :: rest, out, h, item, hi => by
    unfold closeIteration at h
    obtain ⟨fits, _, h⟩ := bind_eq_ok.mp h
    obtain ⟨others, ho, h⟩ := bind_eq_ok.mp h
    have hrest : ∀ item ∈ others, ∃ s ∈ state :: rest,
        item.1.row.usedRelationships = s.row.usedRelationships := by
      intro item hi
      obtain ⟨s, hs, e⟩ := closeIteration_used ho item hi
      exact ⟨s, .tail _ hs, e⟩
    split at h
    · cases h
      rcases List.mem_cons.mp hi with rfl | hi
      · exact ⟨state, .head _, foldl_collect_used names _⟩
      · exact hrest item hi
    · cases h
      exact hrest item hi

/-- What a visit of a group leaves and spends. -/
theorem visitQuantified_spends
    {body : List (PathState V) → MatchResult (List (PathState V))} {cost : Nat}
    (hbody : ∀ states out, body states = .ok out →
      ∀ s' ∈ out, ∃ s ∈ states, unused context s' + cost ≤ unused context s)
    {item : PathState V × CollectedBindings V}
    {r : List (PathState V) × List (PathState V × CollectedBindings V)}
    (h : visitQuantified context bounds predicate names body maximum depth item = .ok r) :
    (∀ t ∈ r.1, bounds.minimum ≤ depth ∧ unused context t = unused context item.1) ∧
      ∀ item' ∈ r.2, unused context item'.1 + cost ≤ unused context item.1 := by
  unfold visitQuantified at h
  obtain ⟨completed, hc, h⟩ := bind_eq_ok.mp h
  obtain ⟨next, hn, h⟩ := bind_eq_ok.mp h
  cases h
  refine ⟨fun t ht => ?_, fun item' hi => ?_⟩
  · unfold completeDue at hc
    split at hc
    · rename_i hdue
      cases hx : completeQuantifiedState context item.1 item.2 with
      | error e =>
        rw [hx] at hc
        cases hc
      | ok s =>
        rw [hx] at hc
        cases hc
        rcases List.mem_singleton.mp ht with rfl
        exact ⟨hdue, unused_congr (completeQuantifiedState_used hx)⟩
    · cases hc
      cases ht
  · have hadv := whileBelow_mem hn hi
    unfold advanceQuantifiedState at hadv
    obtain ⟨expanded, he, hclose⟩ := bind_eq_ok.mp hadv
    obtain ⟨s₁, hs₁, e⟩ := closeIteration_used hclose item' hi
    obtain ⟨s, hs, hle⟩ := hbody _ _ he s₁ hs₁
    rcases List.mem_singleton.mp hs with rfl
    rw [unused_congr e]
    refine Nat.le_trans hle (Nat.le_of_eq (unused_congr ?_))
    exact foldl_remove_used names item.1.row

theorem executeQuantified_spends
    {body : List (PathState V) → MatchResult (List (PathState V))} {cost : Nat}
    (hbody : ∀ states out, body states = .ok out →
      ∀ s' ∈ out, ∃ s ∈ states, unused context s' + cost ≤ unused context s)
    {states out : List (PathState V)}
    (h : executeQuantified context bounds predicate names body states = .ok out) :
    ∀ s' ∈ out, ∃ s ∈ states, unused context s' + bounds.minimum * cost ≤ unused context s := by
  unfold executeQuantified at h
  obtain ⟨maximum, _, h⟩ := bind_eq_ok.mp h
  refine walk_results
    (I := fun depth item => ∃ s ∈ states, unused context item.1 + depth * cost ≤ unused context s)
    (fun depth item r hI hv => ?_) (fun item hi => ?_)
    (fun _ ht => absurd ht List.not_mem_nil) h
  · obtain ⟨s, hs, hle⟩ := hI
    obtain ⟨hres, hnext⟩ := visitQuantified_spends hbody hv
    refine ⟨fun t ht => ⟨s, hs, ?_⟩, fun item' hi => ⟨s, hs, ?_⟩⟩
    · obtain ⟨hdue, e⟩ := hres t ht
      have := Nat.mul_le_mul_right cost hdue
      omega
    · have := hnext item' hi
      rw [Nat.succ_mul]
      omega
  · obtain ⟨s, hs, rfl⟩ := List.mem_map.mp hi
    exact ⟨s, hs, by rw [Nat.zero_mul]; exact Nat.le_refl _⟩

mutual

theorem executeFragment_spends (hmode : context.matchMode = .differentRelationships) :
    ∀ (fragment : Fragment A X) {states out : List (PathState V)},
      executeFragment context mode fragment states = .ok out →
      ∀ s' ∈ out, ∃ s ∈ states, unused context s' + fragment.minimumRelationships ≤ unused context s
  | .simple start chains, states, out, h, s', hs' => by
    unfold executeFragment executeSimple at h
    obtain ⟨started, hst, h⟩ := bind_eq_ok.mp h
    obtain ⟨s₁, hs₁, hle⟩ := executeChains_spends hmode h s' hs'
    obtain ⟨s, hs, r, hr, hmem⟩ := expandStates_mem hst s₁ hs₁
    rw [unused_congr (matchStartNode_used hr s₁ hmem)] at hle
    exact ⟨s, hs, by unfold Fragment.minimumRelationships; exact hle⟩
  | .quantified fragments bounds predicate, states, out, h, s', hs' => by
    unfold executeFragment at h
    obtain ⟨s, hs, hle⟩ := executeQuantified_spends
      (fun states out h => executeFragments_spends hmode fragments h) h s' hs'
    exact ⟨s, hs, by unfold Fragment.minimumRelationships; exact hle⟩

/-- **Under DIFFERENT RELATIONSHIPS a match uses the minimum of its fragments.** -/
theorem executeFragments_spends (hmode : context.matchMode = .differentRelationships) :
    ∀ (fragments : List (Fragment A X)) {states out : List (PathState V)},
      executeFragments context mode fragments states = .ok out →
      ∀ s' ∈ out, ∃ s ∈ states, unused context s' + minimumOf fragments ≤ unused context s
  | [], states, out, h, s', hs' => by
    unfold executeFragments at h
    cases h
    exact ⟨s', hs', by unfold minimumOf; omega⟩
  | fragment :: rest, states, out, h, s', hs' => by
    unfold executeFragments at h
    obtain ⟨expanded, he, h⟩ := bind_eq_ok.mp h
    split at h
    · cases h
      cases hs'
    · obtain ⟨s₁, hs₁, hle₁⟩ := executeFragments_spends hmode rest h s' hs'
      obtain ⟨s, hs, hle⟩ := executeFragment_spends hmode fragment he s₁ hs₁
      exact ⟨s, hs, by unfold minimumOf; omega⟩

end

end Spending

/-! ## 4. Groups that are entered -/

mutual

/-- A match of the fragment enters a group without a limit whose body needs no relationship: with a
    state in its frontier, and not in a group of maximum zero. -/
def Fragment.Enters (context : PathContext A X V) (mode : PathModeKind) :
    Fragment A X → List (PathState V) → Prop
  | .simple _ _, _ => False
  | .quantified fragments bounds _, states =>
    states ≠ [] ∧ bounds.maximum ≠ some 0 ∧
      (bounds.maximum = none ∧ minimumOf fragments = 0 ∨
        ∃ states', EntersAny context mode fragments states')

def EntersAny (context : PathContext A X V) (mode : PathModeKind) :
    List (Fragment A X) → List (PathState V) → Prop
  | [], _ => False
  | fragment :: rest, states =>
    fragment.Enters context mode states ∨
      ∃ expanded, executeFragment context mode fragment states = .ok expanded ∧
        EntersAny context mode rest expanded

end

/-- The parts of a clause, from some rows on. -/
def EntersParts [DecidableEq V] (context : PathContext A X V) :
    List (PatternPartSpec A X) → List (BindingRow V) → Prop
  | [], _ => False
  | part :: rest, rows =>
    (∃ row ∈ rows, EntersAny context part.pathMode part.fragments [{ row := row }]) ∨
      ∃ expanded, expandStates (executePart context part) rows = .ok expanded ∧
        EntersParts context rest expanded

mutual

theorem Fragment.Consuming.never {mode : PathModeKind} :
    ∀ {fragment : Fragment A X}, fragment.Consuming →
      ∀ states : List (PathState V), ¬ fragment.Enters context mode states
  | .simple _ _, _, _, henters => by
    unfold Fragment.Enters at henters
    exact henters
  | .quantified fragments bounds predicate, h, states, henters => by
    unfold Fragment.Consuming at h
    unfold Fragment.Enters at henters
    obtain ⟨_, hmaximum, henters⟩ := henters
    obtain ⟨hone, hbody⟩ := h.resolve_left hmaximum
    rcases henters with ⟨hnone, hzero⟩ | ⟨states', henters⟩
    · have := hone hnone
      omega
    · exact consumingAll_never hbody states' henters

/-- **Where every repetition that may be entered uses a relationship**, no idle one is entered. -/
theorem consumingAll_never {mode : PathModeKind} :
    ∀ {fragments : List (Fragment A X)}, ConsumingAll fragments →
      ∀ states : List (PathState V), ¬ EntersAny context mode fragments states
  | [], _, _, henters => by
    unfold EntersAny at henters
    exact henters
  | fragment :: rest, h, states, henters => by
    unfold ConsumingAll at h
    unfold EntersAny at henters
    rcases henters with henters | ⟨expanded, _, henters⟩
    · exact h.1.never states henters
    · exact consumingAll_never h.2 expanded henters

end

theorem consumingParts_never [DecidableEq V] :
    ∀ {parts : List (PatternPartSpec A X)}, (∀ part ∈ parts, ConsumingAll part.fragments) →
      ∀ rows : List (BindingRow V), ¬ EntersParts context parts rows
  | [], _, _, henters => henters
  | part :: rest, h, rows, henters => by
    obtain ⟨hpart, hrest⟩ := List.forall_mem_cons.mp h
    rcases henters with ⟨row, _, henters⟩ | ⟨expanded, _, henters⟩
    · exact consumingAll_never hpart _ henters
    · exact consumingParts_never hrest expanded henters

/-! ## 5. Patience that is enough -/

/-- The observer waits longer than any limit of the pattern and longer than the graph has
    relationships. -/
def Patient (context : PathContext A X V) (limit : Nat) : Prop :=
  limit < context.rounds ∧ relationshipCount context < context.rounds

section Settling

variable {context : PathContext A X V} {mode : PathModeKind}

theorem effectiveMaximum_ok (h : effectiveMaximum context bounds = .ok maximum) :
    bounds.maximum = some maximum ∨
      (bounds.maximum = none ∧ context.matchMode = .differentRelationships) := by
  unfold effectiveMaximum at h
  split at h
  · rename_i hmax
    cases h
    exact .inl hmax
  · rename_i hmax
    split at h
    · rename_i hmode
      exact .inr ⟨hmax, hmode⟩
    · cases h

/-- **A walk over states settles** within its limit or the number of relationships. -/
theorem walk_settles {τ : Type}
    {visit : Nat → PathState V × τ → MatchResult (List (PathState V) × List (PathState V × τ))}
    (hpatient : Patient context limit) (hlimit : bounds.limit ≤ limit)
    (hmax : effectiveMaximum context bounds = .ok maximum)
    (hvisit : ∀ depth item, Settles (visit depth item))
    (hspends : bounds.maximum = none → context.matchMode = .differentRelationships →
      ∀ depth item r, visit depth item = .ok r →
        ∀ item' ∈ r.2, unused context item'.1 < unused context item.1)
    (frontier : List (PathState V × τ)) :
    Settles (walk .running maximum visit context.rounds 0 frontier []) := by
  rcases effectiveMaximum_ok hmax with hsome | ⟨hnone, hmode⟩
  · have hle : maximum ≤ limit := by
      unfold Bounds.limit at hlimit
      rw [hsome] at hlimit
      exact hlimit
    have := hpatient.1
    exact walk_bounded hvisit (Nat.zero_le _) (by omega)
  · have hrounds := hpatient.2
    refine walk_finishes (μ := fun item => unused context item.1) hvisit (hspends hnone hmode)
      (by omega) fun item _ => ?_
    exact Nat.lt_of_le_of_lt (unused_le context item.1) hrounds

theorem executeChain_settles {chain : RelationshipChain A X} (hpatient : Patient context limit)
    (hlimit : chain.bounds.limit ≤ limit) (state : PathState V) :
    Settles (executeChain context mode chain state) := by
  unfold executeChain
  split
  · unfold executeRepeatedRelationship
    refine settles_bind (effectiveMaximum_settles context _) fun maximum hmax => ?_
    refine walk_settles hpatient hlimit hmax
      (fun depth item => visitRepeated_settles context mode chain maximum _ depth item)
      (fun _ hmode depth item r hr item' hi => ?_) _
    exact (visitRepeated_spends hmode hr).2 item' hi
  · exact settles_bind (expandOne_settles context mode _ _) fun _ _ =>
      matchEnds_settles context _ _

theorem executeChains_settles {limit : Nat} (hpatient : Patient context limit) :
    ∀ {chains : List (RelationshipChain A X)},
      chains.foldr (fun chain n => max chain.bounds.limit n) 0 ≤ limit →
      ∀ states : List (PathState V), Settles (executeChains context mode chains states)
  | [], _, states => settles_ok states
  | chain :: rest, hlimit, states => by
    rw [List.foldr_cons] at hlimit
    unfold executeChains
    refine settles_bind (settles_expandStates (executeChain_settles hpatient (by omega)) _)
      fun _ _ => ?_
    exact executeChains_settles hpatient (by omega) _

mutual

theorem executeFragment_settles :
    ∀ (fragment : Fragment A X) {limit : Nat}, Patient context limit →
      fragment.largestLimit ≤ limit → ∀ states : List (PathState V),
      ¬ fragment.Enters context mode states ∨ context.matchMode = .repeatableElements →
      Settles (executeFragment context mode fragment states)
  | .simple start chains, limit, hpatient, hlimit, states, _ => by
    unfold Fragment.largestLimit at hlimit
    unfold executeFragment executeSimple
    exact settles_bind (settles_expandStates (matchStartNode_settles context start) _)
      fun _ _ => executeChains_settles hpatient hlimit _
  | .quantified fragments bounds predicate, limit, hpatient, hlimit, states, hsafe => by
    unfold Fragment.largestLimit at hlimit
    unfold executeFragment executeQuantified
    refine settles_bind (effectiveMaximum_settles context _) fun maximum hmax => ?_
    -- an empty frontier ends the walk at once
    by_cases hstates : states = []
    · rw [hstates]
      exact walk_nil (Nat.zero_lt_of_lt hpatient.1)
    have henters : context.matchMode = .differentRelationships → bounds.maximum ≠ some 0 →
        (bounds.maximum = none → minimumOf fragments ≠ 0) ∧
          ∀ states', ¬ EntersAny context mode fragments states' := by
      intro hmode hmaximum
      have hnever := hsafe.resolve_right (by rw [hmode]; exact nofun)
      unfold Fragment.Enters at hnever
      exact ⟨fun hnone hzero => hnever ⟨hstates, hmaximum, .inl ⟨hnone, hzero⟩⟩,
        fun states' hbody => hnever ⟨hstates, hmaximum, .inr ⟨states', hbody⟩⟩⟩
    -- a group of maximum zero does not run its body
    have hbody : 0 < maximum → ∀ states : List (PathState V),
        Settles (executeFragments context mode fragments states) := by
      intro hpos states'
      refine executeFragments_settles fragments hpatient (by omega) states' ?_
      cases hmode : context.matchMode with
      | repeatableElements => exact .inr rfl
      | differentRelationships =>
        refine .inl ((henters hmode fun hzero => ?_).2 states')
        rcases effectiveMaximum_ok hmax with hsome | ⟨hnone, _⟩
        · rw [hzero] at hsome
          cases hsome
          exact absurd hpos (Nat.lt_irrefl 0)
        · rw [hzero] at hnone
          cases hnone
    refine walk_settles hpatient (Nat.le_trans (Nat.le_max_left _ _) hlimit) hmax
      (fun depth item => visitQuantified_settles context _ _ _ hbody _ _)
      (fun hnone hmode depth item r hr item' hi => ?_) _
    have hone : minimumOf fragments ≠ 0 :=
      (henters hmode (by rw [hnone]; exact nofun)).1 hnone
    have := (visitQuantified_spends
      (fun _ _ h => executeFragments_spends hmode fragments h) hr).2 item' hi
    omega

/-- **A match settles** where it enters no idle group, or repetitions without a limit are refused.
-/
theorem executeFragments_settles :
    ∀ (fragments : List (Fragment A X)) {limit : Nat}, Patient context limit →
      largestLimitOf fragments ≤ limit → ∀ states : List (PathState V),
      ¬ EntersAny context mode fragments states ∨ context.matchMode = .repeatableElements →
      Settles (executeFragments context mode fragments states)
  | [], _, _, _, states, _ => by
    unfold executeFragments
    exact settles_ok states
  | fragment :: rest, limit, hpatient, hlimit, states, hsafe => by
    unfold largestLimitOf at hlimit
    unfold EntersAny at hsafe
    unfold executeFragments
    refine settles_bind (executeFragment_settles fragment hpatient (by omega) states ?_)
      fun expanded hexpanded => ?_
    · exact hsafe.imp_left fun hnever henters => hnever (.inl henters)
    split
    · exact settles_pure _
    · refine executeFragments_settles rest hpatient (by omega) expanded ?_
      exact hsafe.imp_left fun hnever henters => hnever (.inr ⟨expanded, hexpanded, henters⟩)

end

theorem executePart_settles [DecidableEq V] {part : PatternPartSpec A X}
    (hpatient : Patient context limit) (hlimit : largestLimitOf part.fragments ≤ limit)
    {row : BindingRow V} (hsafe : ¬ EntersAny context part.pathMode part.fragments
      [{ row := row }] ∨ context.matchMode = .repeatableElements) :
    Settles (executePart context part row) := by
  unfold executePart
  refine settles_bind (executeFragments_settles part.fragments hpatient hlimit _ hsafe)
    fun states _ => ?_
  refine settles_bind ?_ fun _ _ => settles_pure _
  unfold bindPartPaths
  split
  · exact settles_ok _
  · exact settles_mapM (fun state => settles_bind (bindPath_settles _ _ _ _)
      fun _ _ => settles_pure _) _

theorem executeMatchParts_settles [DecidableEq V] {limit : Nat} (hpatient : Patient context limit) :
    ∀ {parts : List (PatternPartSpec A X)},
      (∀ part ∈ parts, largestLimitOf part.fragments ≤ limit) →
      ∀ rows : List (BindingRow V),
        ¬ EntersParts context parts rows ∨ context.matchMode = .repeatableElements →
        Settles (executeMatchParts context parts rows)
  | [], _, rows, _ => settles_ok rows
  | part :: rest, hparts, rows, hsafe => by
    obtain ⟨hlimit, hparts⟩ := List.forall_mem_cons.mp hparts
    unfold executeMatchParts
    refine settles_bind (settles_expandStates_mem fun row hrow => executePart_settles hpatient
      hlimit ?_) fun expanded hexpanded => ?_
    · exact hsafe.imp_left fun hnever henters => hnever (.inl ⟨row, hrow, henters⟩)
    split
    · exact settles_pure _
    · refine executeMatchParts_settles hpatient hparts expanded ?_
      exact hsafe.imp_left fun hnever henters => hnever (.inr ⟨expanded, hexpanded, henters⟩)

end Settling

/-- The largest limit of a repetition in the parts of a clause. -/
def largestLimitOfParts (parts : List (PatternPartSpec A X)) : Nat :=
  parts.foldr (fun part n => max (largestLimitOf part.fragments) n) 0

theorem largestLimit_le_of_mem {part : PatternPartSpec A X} :
    ∀ {parts : List (PatternPartSpec A X)}, part ∈ parts →
      largestLimitOf part.fragments ≤ largestLimitOfParts parts
  | [], h => absurd h List.not_mem_nil
  | other :: rest, h => by
    unfold largestLimitOfParts
    rcases List.mem_cons.mp h with rfl | h
    · exact Nat.le_max_left _ _
    · exact Nat.le_trans (largestLimit_le_of_mem h) (Nat.le_max_right _ _)

/-- **A clause settles** once the observer waits longer than its limits and the number of
relationships. -/
theorem executeMatch_settles [DecidableEq V] {clause : List (PartAst A X)}
    {input : List (BindingRow V)} (hsafe : ∀ parts, clause.mapM parsePart = .ok parts →
      ∀ row ∈ input, ¬ EntersParts context parts [{ row with usedRelationships := ∅ }] ∨
        context.matchMode = .repeatableElements)
    (hpatient : ∀ parts, clause.mapM parsePart = .ok parts →
      Patient context (largestLimitOfParts parts)) :
    Settles (executeMatch context clause input) := by
  unfold executeMatch
  refine settles_bind (settles_ofQuery _) fun parts hparts => ?_
  have hparsed : clause.mapM parsePart = .ok parts := by
    cases h : clause.mapM parsePart with
    | error e =>
      rw [h] at hparts
      cases hparts
    | ok parts' =>
      rw [h] at hparts
      cases hparts
      rfl
  refine settles_expandStates_mem fun row hrow => ?_
  exact executeMatchParts_settles (hpatient parts hparsed) (fun part hp => largestLimit_le_of_mem hp)
    _ (hsafe parts hparsed row hrow)

end Lithograph.Query.Path
