/-
  File:      Lithograph/Query/SemanticIndex/HnswSearch.lean
  Subject:   A search on a level ends, and offers distinct entries of that level.

  * **`hnswSearchLayer_offers`**: from an entry point on the level it offers at least one entry.
-/
import Lithograph.Library.Outcome
import Lithograph.Query.SemanticIndex.Hnsw

namespace Lithograph.Query.SemanticIndex

open Lithograph.Library

variable {ν σ : Type}

/-- The errors of the similarity itself. -/
def SimilarityFails (similarity : ν → ν → QueryResult σ) (error : QueryError) : Prop :=
  ∃ left right, similarity left right = .error error

/-- An owner has an entry that reaches up to the level. -/
def PresentOn (graph : VectorCacheGraph ν) (level : Nat) (ownerId : Int) : Prop :=
  ∃ entry, graph[ownerId]? = some entry ∧ level ≤ entry.level

/-- Some entries of the level, each once. -/
structure Offered (graph : VectorCacheGraph ν) (level : Nat) (items : List (VectorQueueItem σ)) :
    Prop where
  found : ∀ item ∈ items, PresentOn graph level item.ownerId
  distinct : (items.map (·.ownerId)).Nodup
  some : items ≠ []

/-- What the search keeps: its nearest items are an offer, and they were visited. -/
structure Searching (graph : VectorCacheGraph ν) (level : Nat) (state : HnswSearchState σ) :
    Prop where
  offered : Offered graph level state.nearest
  seen : ∀ item ∈ state.nearest, item.ownerId ∈ state.visited

/-- What is left to do: the entries not visited, and the candidates that wait. -/
def searchWork (graph : VectorCacheGraph ν) (state : HnswSearchState σ) : Nat :=
  graph.keys.countP (fun ownerId => ownerId ∉ state.visited) + state.candidates.length

theorem similarity_outcome {similarity : ν → ν → QueryResult σ} (left right : ν) :
    Outcome (SimilarityFails similarity) (fun _ => True) (similarity left right) := by
  cases h : similarity left right with
  | ok score => exact outcome_ok trivial
  | error error => exact .inr ⟨error, rfl, left, right, h⟩

theorem PresentOn.mem_keys {graph : VectorCacheGraph ν} {level : Nat} {ownerId : Int}
    (h : PresentOn graph level ownerId) : ownerId ∈ graph.keys := by
  obtain ⟨entry, hentry, _⟩ := h
  rw [Std.ExtTreeMap.mem_keys, Std.ExtTreeMap.mem_iff_isSome_getElem?, hentry]
  rfl

/-! ## 1. One neighbour -/

section Visit

variable {graph : VectorCacheGraph ν} {level : Nat}

theorem Offered.dropLast {nearest : List (VectorQueueItem σ)} (h : Offered graph level nearest)
    (hmore : 1 < nearest.length) : Offered graph level nearest.dropLast := by
  refine ⟨fun item hitem => h.found item (List.dropLast_subset _ hitem), ?_, fun hnone => ?_⟩
  · exact h.distinct.sublist ((List.dropLast_sublist _).map _)
  · have hlength := congrArg List.length hnone
    rw [List.length_dropLast, List.length_nil] at hlength
    omega

variable [LinearOrder σ]

theorem Offered.enqueue {nearest : List (VectorQueueItem σ)} (h : Offered graph level nearest)
    {item : VectorQueueItem σ} (hitem : PresentOn graph level item.ownerId)
    (hnew : item.ownerId ∉ nearest.map (·.ownerId)) :
    Offered graph level (nearest.orderedInsert Ranks item) := by
  have hperm := List.perm_orderedInsert Ranks item nearest
  refine ⟨fun other hother => ?_, ?_, fun hnone => ?_⟩
  · rcases List.mem_cons.mp (hperm.mem_iff.mp hother) with rfl | hold
    · exact hitem
    · exact h.found other hold
  · rw [(hperm.map _).nodup_iff, List.map_cons]
    exact List.nodup_cons.mpr ⟨hnew, h.distinct⟩
  · rw [hnone] at hperm
    exact absurd hperm.symm.eq_nil (List.cons_ne_nil _ _)

variable {ef : Nat}

theorem Searching.keep {state : HnswSearchState σ} {visited : List Int}
    (h : Searching graph level { state with visited := visited }) {item : VectorQueueItem σ}
    (hitem : PresentOn graph level item.ownerId)
    (hnew : item.ownerId ∉ state.nearest.map (·.ownerId)) (hseen : item.ownerId ∈ visited)
    (hef : 1 ≤ ef) :
    Searching graph level ({ state with visited := visited }.keep item ef) ∧
      ({ state with visited := visited }.keep item ef).visited = visited ∧
      ({ state with visited := visited }.keep item ef).candidates.length ≤
        state.candidates.length + 1 := by
  have hmore := h.offered.enqueue hitem hnew
  have hallSeen : ∀ other ∈ state.nearest.orderedInsert Ranks item, other.ownerId ∈ visited := by
    intro other hother
    rcases List.mem_cons.mp ((List.perm_orderedInsert Ranks item _).mem_iff.mp hother) with
      rfl | hold
    · exact hseen
    · exact h.seen other hold
  unfold HnswSearchState.keep
  split
  · dsimp only [HnswSearchState.enqueue]
    split
    · rename_i hfull
      have hlong : 1 < (state.nearest.orderedInsert Ranks item).length := lt_of_le_of_lt hef hfull
      refine ⟨⟨hmore.dropLast hlong, fun other hother => ?_⟩, rfl, ?_⟩
      · exact hallSeen other (List.dropLast_subset _ hother)
      · rw [List.orderedInsert_length]
    · refine ⟨⟨hmore, hallSeen⟩, rfl, ?_⟩
      rw [List.orderedInsert_length]
  · exact ⟨h, rfl, Nat.le_succ _⟩

variable {similarity : ν → ν → QueryResult σ} {query : ν}

/-- **A neighbour is taken up once.** -/
theorem visitNeighbor_keeps {state : HnswSearchState σ} (h : Searching graph level state)
    (hef : 1 ≤ ef) (neighborId : Int) :
    Outcome (SimilarityFails similarity)
      (fun state' => Searching graph level state' ∧
        searchWork graph state' ≤ searchWork graph state)
      (visitNeighbor similarity graph query level ef state neighborId) := by
  unfold visitNeighbor
  split
  · exact outcome_ok ⟨h, le_rfl⟩
  · rename_i hnew
    have hmarked : Searching graph level { state with visited := neighborId :: state.visited } :=
      ⟨h.offered, fun item hitem => .tail _ (h.seen item hitem)⟩
    have hless := countP_unseen_le graph.keys state.visited neighborId
    split
    · exact outcome_ok ⟨hmarked, Nat.add_le_add_right hless _⟩
    · rename_i neighbor hneighbor
      split
      · exact outcome_ok ⟨hmarked, Nat.add_le_add_right hless _⟩
      · have hpresent : PresentOn graph level neighborId := ⟨neighbor, hneighbor, by omega⟩
        refine (similarity_outcome _ _).bind fun score _ _ => outcome_ok ?_
        have hunkept : neighborId ∉ state.nearest.map (·.ownerId) := by
          intro hmem
          obtain ⟨item, hitem, rfl⟩ := List.mem_map.mp hmem
          exact hnew (h.seen item hitem)
        obtain ⟨hkept, hvisited, hcandidates⟩ :=
          @Searching.keep _ _ _ _ _ _ _ _ hmarked ⟨neighborId, score⟩ hpresent hunkept
            (.head _) hef
        refine ⟨hkept, ?_⟩
        have hcount := countP_unseen hpresent.mem_keys hnew
        unfold searchWork
        rw [hvisited]
        omega

end Visit

/-! ## 2. The loop -/

section Loop

variable {graph : VectorCacheGraph ν} {level ef : Nat}
  {similarity : ν → ν → QueryResult σ} {query : ν}

theorem initializeMemorySearch_starts {entryPoint : Int}
    (hentry : PresentOn graph level entryPoint) :
    Outcome (SimilarityFails similarity)
      (fun state => Searching graph level state ∧ searchWork graph state < graph.size + 1)
      (initializeMemorySearch similarity graph query level entryPoint) := by
  obtain ⟨entry, hfound, hlevel⟩ := id hentry
  unfold initializeMemorySearch
  rw [hfound]
  dsimp only
  rw [if_neg (by omega)]
  refine (similarity_outcome _ _).bind fun score _ _ => outcome_ok ⟨⟨⟨?_, ?_, ?_⟩, ?_⟩, ?_⟩
  · intro item hitem
    rw [List.mem_singleton.mp hitem]
    exact hentry
  · simp
  · exact List.cons_ne_nil _ _
  · intro item hitem
    rw [List.mem_singleton.mp hitem]
    exact .head _
  · have hcount : graph.keys.countP (fun b => b ∉ [entryPoint]) + 1 ≤
        graph.keys.countP (fun b => b ∉ ([] : List Int)) :=
      countP_unseen hentry.mem_keys List.not_mem_nil
    have hall := List.countP_le_length (p := fun b => b ∉ ([] : List Int)) (l := graph.keys)
    rw [Std.ExtTreeMap.length_keys] at hall
    exact Nat.lt_succ_of_le (le_trans hcount hall)

variable [LinearOrder σ]

theorem searchLoop_ends (hef : 1 ≤ ef) : ∀ {fuel : Nat} {state : HnswSearchState σ},
    Searching graph level state → searchWork graph state < fuel →
      Outcome (SimilarityFails similarity)
        (fun result => ∃ final, result = some final ∧ Offered graph level final.nearest)
        (searchLoop similarity graph query level ef fuel state)
  | 0, _, _, hfuel => absurd hfuel (Nat.not_lt_zero _)
  | fuel + 1, state, h, hfuel => by
    unfold searchLoop
    split
    · exact outcome_ok ⟨_, rfl, h.offered⟩
    · rename_i candidate candidates hcandidates
      split
      · exact outcome_ok ⟨_, rfl, h.offered⟩
      · -- the candidate is gone, and its neighbours bring no more work than they take
        have hpopped : Searching graph level { state with candidates := candidates } :=
          ⟨h.offered, h.seen⟩
        have hless : searchWork graph { state with candidates := candidates } < fuel := by
          unfold searchWork at hfuel ⊢
          rw [hcandidates, List.length_cons] at hfuel
          dsimp only
          omega
        split
        · exact searchLoop_ends hef hpopped hless
        · rename_i neighbors _
          have hround : Outcome (SimilarityFails similarity)
              (fun state' => Searching graph level state' ∧ searchWork graph state' < fuel)
              (neighbors.foldlM (visitNeighbor similarity graph query level ef)
                { state with candidates := candidates }) := by
            refine Outcome.foldlM (fun s neighborId _ hs => ?_) _ ⟨hpopped, hless⟩
            exact (visitNeighbor_keeps hs.1 hef neighborId).mono fun s' hs' =>
              ⟨hs'.1, lt_of_le_of_lt hs'.2 hs.2⟩
          exact hround.bind fun state' _ hstate => searchLoop_ends hef hstate.1 hstate.2

/-- **The search offers entries of its level.** -/
theorem hnswSearchLayer_offers {entryPoint : Int} (hentry : PresentOn graph level entryPoint) :
    Outcome (SimilarityFails similarity) (fun result => Offered graph level result.items)
      (hnswSearchLayer similarity graph query level ef entryPoint) := by
  unfold hnswSearchLayer
  refine (initializeMemorySearch_starts hentry).bind fun state _ hstate => ?_
  refine (searchLoop_ends (le_max_right ef 1) hstate.1 hstate.2).bind fun result _ hresult => ?_
  obtain ⟨final, rfl, hfinal⟩ := hresult
  exact outcome_ok hfinal

end Loop

end Lithograph.Query.SemanticIndex
