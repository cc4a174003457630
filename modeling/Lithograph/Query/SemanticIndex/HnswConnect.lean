/-
  File:      Lithograph/Query/SemanticIndex/HnswConnect.lean
  Subject:   What selection offers a new entry, and what connecting it leaves of the graph.

  * **`connectHnswEntry_keeps`**: the graph stays well linked, with the same entries.
-/
import Lithograph.Query.SemanticIndex.HnswSearch

namespace Lithograph.Query.SemanticIndex

open Lithograph.Library

variable {ν σ : Type}

/-! ## 1. Graphs of valid links -/

/-- What a level allows a list: twice as much on the lowest. -/
def degreeBound (maximum level : Nat) : Nat := if level = 0 then maximum * 2 else maximum

/-- A list that an entry may have on a level. -/
structure LayerFits (graph : VectorCacheGraph ν) (maximum : Nat) (ownerId : Int) (level : Nat)
    (layer : List Int) : Prop where
  others : ∀ v ∈ layer, v ≠ ownerId
  present : ∀ v ∈ layer, PresentOn graph level v
  degree : layer.length ≤ degreeBound maximum level

structure WellLinked (maximum : Nat) (graph : VectorCacheGraph ν) : Prop where
  key : ∀ (ownerId : Int) (entry : VectorCacheEntry ν), graph[ownerId]? = some entry →
    entry.ownerId = ownerId
  layers : ∀ (ownerId : Int) (entry : VectorCacheEntry ν), graph[ownerId]? = some entry →
    entry.neighbors.length = entry.level + 1
  fits : ∀ (ownerId : Int) (entry : VectorCacheEntry ν), graph[ownerId]? = some entry →
    ∀ level layer, entry.neighbors[level]? = some layer →
      LayerFits graph maximum ownerId level layer

/-- The links of an owner on level zero. -/
def bottomLinks (graph : VectorCacheGraph ν) (ownerId : Int) : List Int :=
  (levelZeroNeighbors graph ownerId).getD []

/-- What no connection changes of an entry. -/
def identity (entry : VectorCacheEntry ν) : Int × ν × Nat :=
  (entry.ownerId, entry.vector, entry.level)

/-- The two graphs have the same entries, apart from the links. -/
def SameEntries (graph graph' : VectorCacheGraph ν) : Prop :=
  ∀ ownerId : Int, graph'[ownerId]?.map identity = graph[ownerId]?.map identity

theorem SameEntries.trans {graph graph' graph'' : VectorCacheGraph ν}
    (h : SameEntries graph graph') (h' : SameEntries graph' graph'') :
    SameEntries graph graph'' := fun ownerId => (h' ownerId).trans (h ownerId)

variable {graph graph' : VectorCacheGraph ν}

theorem SameEntries.symm (h : SameEntries graph graph') :
    SameEntries graph' graph := fun ownerId => (h ownerId).symm

variable {ownerId : Int} {level : Nat}

theorem SameEntries.exists (h : SameEntries graph graph')
    {entry : VectorCacheEntry ν} (hentry : graph[ownerId]? = some entry) :
    ∃ entry', graph'[ownerId]? = some entry' ∧ identity entry' = identity entry := by
  have hsame := h ownerId
  rw [hentry, Option.map_some, Option.map_eq_some_iff] at hsame
  exact hsame

theorem PresentOn.same (h : SameEntries graph graph')
    (hpresent : PresentOn graph level ownerId) : PresentOn graph' level ownerId := by
  obtain ⟨entry, hentry, hlevel⟩ := hpresent
  obtain ⟨entry', hentry', hidentity⟩ := h.exists hentry
  simp only [identity, Prod.mk.injEq] at hidentity
  exact ⟨entry', hentry', by rw [hidentity.2.2]; exact hlevel⟩

/-! ## 2. One list replaced -/

section Layer

variable {graph : VectorCacheGraph ν} {maximum level : Nat} {neighborId : Int}
  {neighbor : VectorCacheEntry ν} {layer : List Int}

theorem sameEntries_withLayer (hneighbor : graph[neighborId]? = some neighbor) :
    SameEntries graph (graph.insert neighborId (neighbor.withLayer level layer)) := by
  intro ownerId
  rw [lookup_insert]
  split
  · rename_i hsame
    rw [hsame, hneighbor]
    rfl
  · rfl

theorem LayerFits.same {graph' : VectorCacheGraph ν} {ownerId : Int}
    (h : LayerFits graph maximum ownerId level layer) (hsame : SameEntries graph graph') :
    LayerFits graph' maximum ownerId level layer :=
  ⟨h.others, fun v hv => (h.present v hv).same hsame, h.degree⟩

/-- **A list that fits may take the place of another.** -/
theorem WellLinked.withLayer (h : WellLinked maximum graph)
    (hneighbor : graph[neighborId]? = some neighbor)
    (hlayer : LayerFits graph maximum neighborId level layer) :
    WellLinked maximum (graph.insert neighborId (neighbor.withLayer level layer)) := by
  have hsame : SameEntries graph (graph.insert neighborId (neighbor.withLayer level layer)) :=
    sameEntries_withLayer hneighbor
  refine ⟨fun ownerId entry hentry => ?_, fun ownerId entry hentry => ?_,
    fun ownerId entry hentry l other hother => ?_⟩
  · rw [lookup_insert] at hentry
    split at hentry
    · rename_i howner
      cases hentry
      rw [howner]
      exact h.key neighborId neighbor hneighbor
    · exact h.key ownerId entry hentry
  · rw [lookup_insert] at hentry
    split at hentry
    · cases hentry
      rw [VectorCacheEntry.withLayer, List.length_set]
      exact h.layers neighborId neighbor hneighbor
    · exact h.layers ownerId entry hentry
  · rw [lookup_insert] at hentry
    split at hentry
    · rename_i howner
      cases hentry
      rw [howner]
      rw [VectorCacheEntry.withLayer, List.getElem?_set] at hother
      split at hother
      · rename_i hl
        split at hother
        · cases hother
          rw [← hl]
          exact hlayer.same hsame
        · cases hother
      · exact (h.fits neighborId neighbor hneighbor l other hother).same hsame
    · exact (h.fits ownerId entry hentry l other hother).same hsame

theorem bottomLinks_insert {entry : VectorCacheEntry ν} :
    bottomLinks (graph.insert neighborId entry) ownerId =
      if ownerId = neighborId then entry.neighbors.head?.getD []
      else bottomLinks graph ownerId := by
  unfold bottomLinks levelZeroNeighbors
  rw [lookup_insert]
  split
  · rfl
  · rfl

end Layer

/-! ## 3. What is selected -/

section Select

variable {similarity : ν → ν → QueryResult σ} {maximum ef : Nat}
  {graph : VectorCacheGraph ν} {query : ν}

theorem Offered.bestOwner {level : Nat} {items : List (VectorQueueItem σ)}
    (h : Offered graph level items) (current : Int) :
    PresentOn graph level (bestOwner items current) := by
  cases items with
  | nil => exact absurd rfl h.some
  | cons item items => exact h.found item (.head _)

theorem PresentOn.lower {level lower : Nat} {ownerId : Int} (h : PresentOn graph level ownerId)
    (hle : lower ≤ level) : PresentOn graph lower ownerId := by
  obtain ⟨entry, hentry, hlevel⟩ := h
  exact ⟨entry, hentry, le_trans hle hlevel⟩

/-- A list of neighbours as the search offers them. -/
structure Choice (graph : VectorCacheGraph ν) (maximum level : Nat) (layer : List Int) : Prop where
  distinct : layer.Nodup
  present : ∀ v ∈ layer, PresentOn graph level v
  degree : layer.length ≤ maximum

theorem choice_nil : Choice graph maximum level [] :=
  ⟨List.nodup_nil, fun _ h => absurd h List.not_mem_nil, Nat.zero_le _⟩

theorem Offered.choice {items : List (VectorQueueItem σ)} (h : Offered graph level items) :
    Choice graph maximum level ((items.take maximum).map (·.ownerId)) := by
  refine ⟨?_, fun v hv => ?_, ?_⟩
  · exact h.distinct.sublist ((List.take_sublist _ _).map _)
  · obtain ⟨item, hitem, rfl⟩ := List.mem_map.mp hv
    exact h.found item (List.mem_of_mem_take hitem)
  · rw [List.length_map]
    exact List.length_take_le _ _

/-- Lists of which each is a choice on its level. -/
def Choices (graph : VectorCacheGraph ν) (maximum : Nat) (selected : List (List Int)) : Prop :=
  ∀ level layer, selected[level]? = some layer → Choice graph maximum level layer

theorem Choices.set {selected : List (List Int)} (h : Choices graph maximum selected) {level : Nat}
    {layer : List Int} (hlayer : Choice graph maximum level layer) :
    Choices graph maximum (selected.set level layer) := by
  intro l other hother
  rw [List.getElem?_set] at hother
  split at hother
  · rename_i hl
    split at hother
    · cases hother
      rw [← hl]
      exact hlayer
    · cases hother
  · exact h l other hother

variable [LinearOrder σ]

theorem descend_present {bottom : Nat} : ∀ (count : Nat) {current : Int},
    PresentOn graph (bottom + count - 1) current →
      Outcome (SimilarityFails similarity) (PresentOn graph (bottom - 1))
        (descend similarity graph query bottom count current)
  | 0, current, h => outcome_ok h
  | count + 1, current, h => by
    refine (hnswSearchLayer_offers (h.lower (by omega))).bind fun result _ hitems => ?_
    exact descend_present count ((hitems.bestOwner current).lower (by omega))

theorem selectLevels_offers : ∀ (count : Nat) {current : Int} {selected : List (List Int)},
    PresentOn graph (count - 1) current → Choices graph maximum selected →
      Outcome (SimilarityFails similarity)
        (fun result => Choices graph maximum result ∧ result.length = selected.length)
        (selectLevels similarity maximum ef graph query count current selected)
  | 0, _, selected, _, hselected => outcome_ok ⟨hselected, rfl⟩
  | level + 1, current, selected, h, hselected => by
    refine (hnswSearchLayer_offers h).bind fun items _ hitems => ?_
    have hrest := selectLevels_offers level ((hitems.bestOwner current).lower (Nat.sub_le _ _))
      (hselected.set hitems.choice)
    exact hrest.mono fun result hresult => ⟨hresult.1, by rw [hresult.2, List.length_set]⟩

/-- **From an entry point on the top level, every level offers a choice.** -/
theorem selectHnswNeighborsForNewEntry_offers {entryOwnerId : Int} {maxLevel : Nat}
    (hentry : PresentOn graph maxLevel entryOwnerId) (entry : VectorCacheEntry ν) :
    Outcome (SimilarityFails similarity)
      (fun selected => Choices graph maximum selected ∧ selected.length = entry.level + 1)
      (selectHnswNeighborsForNewEntry similarity maximum ef graph entryOwnerId maxLevel entry) := by
  unfold selectHnswNeighborsForNewEntry
  -- the greedy part ends on the highest level that the new entry shares with the graph
  have hdescend : Outcome (SimilarityFails similarity) (PresentOn graph (min entry.level maxLevel))
      (descend similarity graph entry.vector (entry.level + 1) (maxLevel - entry.level)
        entryOwnerId) := by
    rcases Nat.lt_or_ge entry.level maxLevel with hlow | hhigh
    · have hstart : PresentOn graph (entry.level + 1 + (maxLevel - entry.level) - 1) entryOwnerId :=
        hentry.lower (by omega)
      exact (descend_present _ hstart).mono fun current hcurrent => hcurrent.lower (by omega)
    · rw [Nat.sub_eq_zero_of_le hhigh, Nat.min_eq_right hhigh]
      exact outcome_ok hentry
  refine hdescend.bind fun current _ hcurrent => ?_
  have hnone : Choices graph maximum (List.replicate (entry.level + 1) []) := by
    intro level layer hlayer
    rw [List.eq_of_mem_replicate (List.mem_of_getElem? hlayer)]
    exact choice_nil
  refine (selectLevels_offers (min entry.level maxLevel + 1) hcurrent hnone).mono ?_
  exact fun selected hselected => ⟨hselected.1, by rw [hselected.2, List.length_replicate]⟩

end Select

/-! ## 4. One neighbour connected -/

section Connect

variable {similarity : ν → ν → QueryResult σ} {maximum : Nat} {graph : VectorCacheGraph ν}

theorem scoreNeighbors_same {graph' : VectorCacheGraph ν} (h : SameEntries graph graph')
    (vector : ν) (neighbors : List Int) :
    scoreNeighbors similarity graph' vector neighbors =
      scoreNeighbors similarity graph vector neighbors := by
  unfold scoreNeighbors
  refine congrArg (fun f => neighbors.mapM f) (funext fun neighborId => ?_)
  cases hentry : graph[neighborId]? with
  | none =>
    have hnone := h neighborId
    rw [hentry, Option.map_none, Option.map_eq_none_iff] at hnone
    rw [hnone]
  | some entry =>
    obtain ⟨entry', hentry', hidentity⟩ := h.exists hentry
    simp only [identity, Prod.mk.injEq] at hidentity
    rw [hentry']
    simp only [hidentity.2.1]

theorem scoreNeighbors_scores {level : Nat} (vector : ν) : ∀ {neighbors : List Int},
    (∀ v ∈ neighbors, PresentOn graph level v) →
      Outcome (SimilarityFails similarity) (fun scored => scored.map (·.ownerId) = neighbors)
        (scoreNeighbors similarity graph vector neighbors)
  | [], _ => outcome_ok rfl
  | v :: neighbors, h => by
    obtain ⟨hv, hrest⟩ := List.forall_mem_cons.mp h
    obtain ⟨neighbor, hneighbor, _⟩ := hv
    unfold scoreNeighbors
    rw [List.mapM_cons, hneighbor]
    have hscore : Outcome (SimilarityFails similarity)
        (fun item : VectorQueueItem σ => item.ownerId = v)
        ((similarity vector neighbor.vector) >>= fun score => Except.ok ⟨v, score⟩) :=
      (similarity_outcome _ _).bind fun score _ _ => outcome_ok rfl
    refine hscore.bind fun item _ hitem => ?_
    refine (scoreNeighbors_scores vector hrest).bind fun scored _ hscored => outcome_ok ?_
    rw [List.map_cons, hitem, hscored]

/-- A list with the new owner in it. -/
def withOwner (ownerId : Int) (layer : List Int) : List Int :=
  if ownerId ∈ layer then layer else layer ++ [ownerId]

variable [LinearOrder σ]

/-- What pruning leaves of the scored neighbours. -/
def pruned (layerMaximum : Nat) (scored : List (VectorQueueItem σ)) : List Int :=
  ((scored.insertionSort Ranks).take layerMaximum).map (·.ownerId)

theorem mem_pruned {layerMaximum : Nat} {scored : List (VectorQueueItem σ)} {v : Int}
    (hv : v ∈ pruned layerMaximum scored) : v ∈ scored.map (·.ownerId) := by
  obtain ⟨item, hitem, rfl⟩ := List.mem_map.mp hv
  have hsorted := List.mem_of_mem_take hitem
  exact List.mem_map_of_mem ((List.perm_insertionSort Ranks scored).mem_iff.mp hsorted)

theorem length_pruned (layerMaximum : Nat) (scored : List (VectorQueueItem σ)) :
    (pruned layerMaximum scored).length ≤ layerMaximum := by
  rw [pruned, List.length_map]
  exact List.length_take_le _ _

/-- **Connecting replaces one list of one entry.** -/
theorem connectHnswNeighbor_eq {neighborId : Int} {bound : Nat} {neighbor : VectorCacheEntry ν}
    {layer : List Int} (hneighbor : graph[neighborId]? = some neighbor)
    (hlayer : neighbor.neighbors[level]? = some layer) :
    connectHnswNeighbor similarity graph ownerId neighborId level bound =
      scoreNeighbors similarity graph neighbor.vector (withOwner ownerId layer) >>= fun scored =>
        .ok (graph.insert neighborId (neighbor.withLayer level (pruned bound scored))) := by
  obtain ⟨hlevel, _⟩ := List.getElem?_eq_some_iff.mp hlayer
  have hset : ∀ other : List Int, (neighbor.withLayer level other).neighbors[level]? =
      some other := fun other => List.getElem?_set_self hlevel
  unfold connectHnswNeighbor
  rw [hneighbor]
  dsimp only
  rw [hlayer]
  change (pruneHnswNeighbors similarity
    (graph.insert neighborId (neighbor.withLayer level (withOwner ownerId layer))) neighborId
    level bound >>= _) = _
  unfold pruneHnswNeighbors
  rw [lookup_insert, if_pos rfl]
  dsimp only
  rw [hset]
  dsimp only
  rw [scoreNeighbors_same (sameEntries_withLayer hneighbor)]
  rw [bind_assoc]
  refine congrArg (fun f => _ >>= f) (funext fun scored => ?_)
  rw [ok_bind, lookup_insert, if_pos rfl, Option.filter_some, if_pos]
  · refine congrArg Except.ok (Std.ExtTreeMap.ext_getElem? fun other => ?_)
    rw [lookup_insert, lookup_insert, lookup_insert]
    split
    · simp only [VectorCacheEntry.withLayer, List.set_set]
      rfl
    · rfl
  · simpa [VectorCacheEntry.withLayer] using hlevel

theorem mem_withOwner {v : Int} {layer : List Int} (hv : v ∈ withOwner ownerId layer) :
    v ∈ layer ∨ v = ownerId := by
  unfold withOwner at hv
  split at hv
  · exact .inl hv
  · simpa using hv

theorem layerMaximum_le (maximum level : Nat) :
    layerMaximum maximum level ≤ degreeBound maximum level := by
  unfold layerMaximum degreeBound
  split
  · exact min_le_left _ _
  · exact le_rfl

theorem WellLinked.layer (h : WellLinked maximum graph) {level : Nat} {ownerId : Int}
    (hpresent : PresentOn graph level ownerId) :
    ∃ entry layer, graph[ownerId]? = some entry ∧ entry.neighbors[level]? = some layer := by
  obtain ⟨entry, hentry, hlevel⟩ := hpresent
  have hlength := h.layers ownerId entry hentry
  have hlist : level < entry.neighbors.length := by omega
  exact ⟨entry, entry.neighbors[level], hentry, List.getElem?_eq_getElem hlist⟩

/-- **A connection keeps the graph well linked**, and touches one list. -/
theorem connectHnswNeighbor_keeps (h : WellLinked maximum graph) {ownerId neighborId : Int}
    {level : Nat} (howner : PresentOn graph level ownerId)
    (hneighbor : PresentOn graph level neighborId) (hne : neighborId ≠ ownerId) :
    Outcome (SimilarityFails similarity)
      (fun graph' => WellLinked maximum graph' ∧ SameEntries graph graph' ∧
        ∃ entry layer, graph[neighborId]? = some entry ∧
          graph' = graph.insert neighborId (entry.withLayer level layer))
      (connectHnswNeighbor similarity graph ownerId neighborId level
        (layerMaximum maximum level)) := by
  obtain ⟨entry, layer, hentry, hlayer⟩ := h.layer hneighbor
  have hfits := h.fits neighborId entry hentry level layer hlayer
  have hmembers : ∀ v ∈ withOwner ownerId layer, v ≠ neighborId ∧ PresentOn graph level v := by
    intro v hv
    rcases mem_withOwner hv with hv | rfl
    · exact ⟨hfits.others v hv, hfits.present v hv⟩
    · exact ⟨fun hsame => hne hsame.symm, howner⟩
  rw [connectHnswNeighbor_eq hentry hlayer]
  have hscores : Outcome (SimilarityFails similarity)
      (fun scored => scored.map (·.ownerId) = withOwner ownerId layer)
      (scoreNeighbors similarity graph entry.vector (withOwner ownerId layer)) :=
    scoreNeighbors_scores entry.vector fun v hv => (hmembers v hv).2
  refine hscores.bind fun scored _ hscored => outcome_ok ?_
  have hkept : LayerFits graph maximum neighborId level
      (pruned (layerMaximum maximum level) scored) := by
    refine ⟨fun v hv => ?_, fun v hv => ?_, ?_⟩
    · exact (hmembers v (by rw [← hscored]; exact mem_pruned hv)).1
    · exact (hmembers v (by rw [← hscored]; exact mem_pruned hv)).2
    · exact le_trans (length_pruned _ scored) (layerMaximum_le maximum level)
  exact ⟨h.withLayer hentry hkept, sameEntries_withLayer hentry, entry, _, hentry, rfl⟩

end Connect

/-! ## 5. A new entry connected -/

section Entry

variable [LinearOrder σ] (similarity : ν → ν → QueryResult σ) (maximum : Nat)

/-- The list of level zero that an owner is left with, when the new entry is connected in a graph
    that holds it. -/
def keptLinks (placed : VectorCacheGraph ν) (newId ownerId : Int) : List Int :=
  if ownerId ∈ bottomLinks placed newId then
    match connectHnswNeighbor similarity placed newId ownerId 0 (layerMaximum maximum 0) with
    | .ok connected => bottomLinks connected ownerId
    | .error _ => []
  else bottomLinks placed ownerId

variable {similarity maximum}

/-- Lists of owners that an entry may be connected to, from a level on upwards. -/
def Connectable (graph : VectorCacheGraph ν) (newId : Int) (level : Nat)
    (selected : List (List Int)) : Prop :=
  ∀ i neighbors, selected[i]? = some neighbors → PresentOn graph (level + i) newId ∧
    ∀ v ∈ neighbors, v ≠ newId ∧ PresentOn graph (level + i) v

variable {newId : Int}

theorem Connectable.tail {graph graph' : VectorCacheGraph ν} {level : Nat}
    {neighbors : List Int} {selected : List (List Int)}
    (h : Connectable graph newId level (neighbors :: selected)) (hsame : SameEntries graph graph') :
    Connectable graph' newId (level + 1) selected := by
  intro i layer hlayer
  obtain ⟨hnew, hmembers⟩ := h (i + 1) layer hlayer
  rw [show level + 1 + i = level + (i + 1) by omega]
  exact ⟨hnew.same hsame, fun v hv => ⟨(hmembers v hv).1, (hmembers v hv).2.same hsame⟩⟩

theorem connectLevels_keeps : ∀ {selected : List (List Int)} {level : Nat}
    {graph : VectorCacheGraph ν}, 1 ≤ level → Connectable graph newId level selected →
      WellLinked maximum graph →
      Outcome (SimilarityFails similarity)
        (fun graph' => WellLinked maximum graph' ∧ SameEntries graph graph' ∧
          ∀ ownerId, bottomLinks graph' ownerId = bottomLinks graph ownerId)
        (connectLevels similarity maximum newId level selected graph)
  | [], _, _, _, _, h => outcome_ok ⟨h, fun _ => rfl, fun _ => rfl⟩
  | neighbors :: selected, level, graph, hlevel, hconnectable, h => by
    obtain ⟨hnew, hmembers⟩ := hconnectable 0 neighbors rfl
    rw [Nat.add_zero] at hnew hmembers
    have hlayer : Outcome (SimilarityFails similarity)
        (fun graph' => WellLinked maximum graph' ∧ SameEntries graph graph' ∧
          ∀ ownerId, bottomLinks graph' ownerId = bottomLinks graph ownerId)
        (neighbors.foldlM (fun graph neighborId => connectHnswNeighbor similarity graph newId
          neighborId level (layerMaximum maximum level)) graph) := by
      refine Outcome.foldlM (fun current neighborId hneighbor hcurrent => ?_) graph
        ⟨h, fun _ => rfl, fun _ => rfl⟩
      obtain ⟨hlinked, hsame, hbottom⟩ := hcurrent
      obtain ⟨hne, hpresent⟩ := hmembers neighborId hneighbor
      refine (connectHnswNeighbor_keeps hlinked (hnew.same hsame) (hpresent.same hsame) hne).mono ?_
      intro graph' hgraph'
      obtain ⟨hlinked', hsame', entry, layer, hentry, rfl⟩ := hgraph'
      refine ⟨hlinked', hsame.trans hsame', fun ownerId => ?_⟩
      rw [← hbottom ownerId, bottomLinks_insert]
      split
      · rename_i howner
        -- a list above the lowest is replaced
        have hhead : (entry.neighbors.set level layer).head? = entry.neighbors.head? := by
          rw [List.head?_eq_getElem?, List.head?_eq_getElem?]
          exact List.getElem?_set_ne (by omega)
        have hkept : (entry.withLayer level layer).neighbors.head? = entry.neighbors.head? := hhead
        rw [hkept, howner, bottomLinks, levelZeroNeighbors, hentry]
        rfl
      · rfl
    refine hlayer.bind fun graph₁ _ hgraph₁ => ?_
    obtain ⟨hlinked, hsame, hbottom⟩ := hgraph₁
    have hrest := connectLevels_keeps (Nat.le_succ_of_le hlevel) (hconnectable.tail hsame) hlinked
    refine hrest.mono fun graph₂ hgraph₂ => ⟨hgraph₂.1, hsame.trans hgraph₂.2.1, fun ownerId => ?_⟩
    rw [hgraph₂.2.2, hbottom]

/-- What connecting the new entry with some owners has done so far. -/
structure ConnectedWith (maximum : Nat) (similarity : ν → ν → QueryResult σ)
    (placed : VectorCacheGraph ν) (newId : Int) (done : Int → Prop) (graph : VectorCacheGraph ν) :
    Prop where
  linked : WellLinked maximum graph
  same : SameEntries placed graph
  kept : ∀ ownerId, done ownerId →
    bottomLinks graph ownerId = keptLinks similarity maximum placed newId ownerId
  rest : ∀ ownerId : Int, ¬ done ownerId → graph[ownerId]? = placed[ownerId]?

theorem ConnectedWith.step {placed graph : VectorCacheGraph ν} {newId neighborId : Int}
    {done : Int → Prop} (h : ConnectedWith maximum similarity placed newId done graph)
    (hnew : PresentOn placed 0 newId) (hpresent : PresentOn placed 0 neighborId)
    (hne : neighborId ≠ newId) (hmem : neighborId ∈ bottomLinks placed newId)
    (hfresh : ¬ done neighborId) :
    Outcome (SimilarityFails similarity)
      (ConnectedWith maximum similarity placed newId fun v => v = neighborId ∨ done v)
      (connectHnswNeighbor similarity graph newId neighborId 0 (layerMaximum maximum 0)) := by
  have hkeeps := @connectHnswNeighbor_keeps _ _ similarity maximum graph _ h.linked _ _ _
    (hnew.same h.same) (hpresent.same h.same) hne
  obtain ⟨entry, layer, hentry, hlayer⟩ := h.linked.layer (hpresent.same h.same)
  have hplaced : placed[neighborId]? = some entry := by
    rw [← h.rest neighborId hfresh]
    exact hentry
  rcases hkeeps with ⟨graph', hgraph', hlinked', hsame', entry', layer', hentry', rfl⟩ | herror
  · refine .inl ⟨_, hgraph', hlinked', h.same.trans hsame', fun ownerId hdone => ?_,
      fun ownerId hrest => ?_⟩
    · rw [bottomLinks_insert]
      split
      · rename_i howner
        subst howner
        -- the same connection, on the graph before any of them
        rw [connectHnswNeighbor_eq hentry hlayer, scoreNeighbors_same h.same] at hgraph'
        obtain ⟨scored, hscored, hresult⟩ := bind_eq_ok.mp hgraph'
        have hequal := Except.ok.inj hresult
        unfold keptLinks
        rw [if_pos hmem, connectHnswNeighbor_eq hplaced hlayer, hscored, ok_bind]
        dsimp only
        have hlookup := congrArg (fun g : VectorCacheGraph ν => bottomLinks g ownerId) hequal
        rw [bottomLinks_insert, bottomLinks_insert, if_pos rfl, if_pos rfl] at hlookup
        rw [bottomLinks_insert, if_pos rfl]
        exact hlookup.symm
      · rename_i howner
        rcases hdone with rfl | hdone
        · exact absurd rfl howner
        · exact h.kept ownerId hdone
    · rw [lookup_insert, if_neg fun hsame => hrest (.inl hsame)]
      exact h.rest ownerId fun hdone => hrest (.inr hdone)
  · exact .inr herror

/-- **A new entry connected**: well linked, with the links of level zero that pruning leaves. -/
theorem connectHnswEntry_keeps {placed : VectorCacheGraph ν}
    {entry : VectorCacheEntry ν} (h : WellLinked maximum placed)
    (hentry : placed[newId]? = some entry) (hdistinct : (bottomLinks placed newId).Nodup)
    (hselected : Connectable placed newId 0 entry.neighbors) :
    Outcome (SimilarityFails similarity)
      (fun graph => WellLinked maximum graph ∧ SameEntries placed graph ∧
        ∀ ownerId, bottomLinks graph ownerId = keptLinks similarity maximum placed newId ownerId)
      (connectHnswEntry similarity maximum placed newId) := by
  unfold connectHnswEntry
  rw [hentry]
  dsimp only
  have hlinks : bottomLinks placed newId = entry.neighbors.head?.getD [] := by
    rw [bottomLinks, levelZeroNeighbors, hentry]
    rfl
  cases hneighbors : entry.neighbors with
  | nil =>
    have hlength := h.layers newId entry hentry
    rw [hneighbors] at hlength
    exact absurd hlength (Nat.succ_ne_zero _).symm
  | cons neighbors selected =>
    rw [hneighbors] at hlinks hselected
    have hlinks : bottomLinks placed newId = neighbors := hlinks
    obtain ⟨hnew, hmembers⟩ := hselected 0 neighbors rfl
    have hstart : ConnectedWith maximum similarity placed newId (fun _ => False) placed :=
      ⟨h, fun _ => rfl, fun _ hdone => hdone.elim, fun _ _ => rfl⟩
    have hbottom := Outcome.foldlM_done (hlinks ▸ hdistinct)
      (fun done graph neighborId hmem hfresh hgraph => hgraph.step hnew
        (hmembers neighborId hmem).2 (hmembers neighborId hmem).1 (hlinks.symm ▸ hmem) hfresh)
      (fun _ => False) placed (fun _ _ hdone => hdone) hstart
    refine hbottom.bind fun graph _ hgraph => ?_
    have hrest : Outcome (SimilarityFails similarity)
        (fun graph' => WellLinked maximum graph' ∧ SameEntries graph graph' ∧
          ∀ ownerId, bottomLinks graph' ownerId = bottomLinks graph ownerId)
        (connectLevels similarity maximum newId (0 + 1) selected graph) :=
      connectLevels_keeps le_rfl (hselected.tail hgraph.same) hgraph.linked
    refine hrest.mono fun graph' hgraph' => ⟨hgraph'.1, hgraph.same.trans hgraph'.2.1, ?_⟩
    intro ownerId
    rw [hgraph'.2.2 ownerId]
    by_cases hdone : ownerId ∈ neighbors
    · exact hgraph.kept ownerId (.inl hdone)
    · have huntouched := hgraph.rest ownerId fun hor => hor.elim hdone fun hno => hno
      unfold keptLinks
      rw [if_neg (hlinks.symm ▸ hdone), bottomLinks, levelZeroNeighbors, huntouched]
      rfl

end Entry

end Lithograph.Query.SemanticIndex
