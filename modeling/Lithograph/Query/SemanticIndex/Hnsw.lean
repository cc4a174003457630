/-
  File:      Lithograph/Query/SemanticIndex/Hnsw.lean
  Subject:   How the vector cache builds its neighbour graph, and what it accepts as one
             (`query/semantic_index/hnsw.rs`, `hnsw/search_memory.rs`, `hnsw/cache.rs`).

  The similarity of vectors and the total order of scores are parameters. A heap is the list of its
  items with the best one first. An interrupt ends a build without a graph and is left out.
-/
import Mathlib.Data.List.Sort
import Lithograph.Library.Marking
import Lithograph.Query.Error

namespace Lithograph.Query.SemanticIndex

open Lithograph.Library
open Std (ExtTreeMap)

/-! ## 1. Entries -/

structure VectorCacheEntry (ν : Type) where
  ownerId : Int
  vector : ν
  level : Nat
  neighbors : List (List Int)
  deriving DecidableEq, Repr

structure VectorCacheMeta where
  entryOwnerId : Option Int
  maxLevel : Nat
  entryCount : Nat
  deriving DecidableEq, Repr

abbrev VectorCacheGraph (ν : Type) := ExtTreeMap Int (VectorCacheEntry ν)

section Validity

variable {ν : Type}

/-- What `persist_vector_cache` writes beside the entries. -/
def persistedMeta (entries : List (VectorCacheEntry ν)) : VectorCacheMeta :=
  let maxLevel := (entries.map (·.level)).foldl max 0
  { entryOwnerId := ((entries.filter (·.level = maxLevel)).map (·.ownerId)).min?
    maxLevel := maxLevel
    entryCount := entries.length }

def collectGraph (entries : List (VectorCacheEntry ν)) : VectorCacheGraph ν :=
  ExtTreeMap.ofList (entries.map fun entry => (entry.ownerId, entry))

/-- A link leads to another entry that is present on the level. -/
def linkValid (entries : VectorCacheGraph ν) (item : VectorCacheEntry ν) (level : Nat)
    (neighborId : Int) : Bool :=
  neighborId != item.ownerId &&
    match entries[neighborId]? with
    | none => false
    | some neighbor => decide (level ≤ neighbor.level)

def vectorCacheLinksValid (entries : VectorCacheGraph ν) (maxLevel : Nat) : Bool :=
  entries.toList.all fun (_, item) =>
    decide (item.level ≤ maxLevel) &&
      item.neighbors.zipIdx.all fun (neighbors, level) =>
        neighbors.all (linkValid entries item level)

/-- `entries.get(&owner_id).and_then(|entry| entry.neighbors.first())`. -/
def levelZeroNeighbors (entries : VectorCacheGraph ν) (ownerId : Int) : Option (List Int) :=
  entries[ownerId]?.bind (·.neighbors.head?)

def vectorCacheGraphValid (entries : VectorCacheGraph ν) (cache : VectorCacheMeta) : Bool :=
  if entries.isEmpty then
    cache.entryCount == 0 && cache.entryOwnerId.isNone && cache.maxLevel == 0
  else match cache.entryOwnerId with
    | none => false
    | some entryOwnerId =>
      if entries.size ≠ cache.entryCount then false
      else match entries[entryOwnerId]? with
        | none => false
        | some entry =>
          if entry.level ≠ cache.maxLevel ∨ 32 < cache.maxLevel then false
          else if vectorCacheLinksValid entries cache.maxLevel = false then false
          else match explore (levelZeroNeighbors entries) (entries.size + 1) [entryOwnerId]
              [entryOwnerId] with
            | none => false
            | some reachable => reachable.length == entries.size

end Validity

/-! ## 2. Search on a level -/

structure VectorQueueItem (σ : Type) where
  ownerId : Int
  score : σ
  deriving DecidableEq, Repr

section Search

variable {ν σ : Type} [LinearOrder σ]

/-- The better item first: the higher score, and of equal scores the lower owner. -/
def Ranks (a b : VectorQueueItem σ) : Prop :=
  b.score < a.score ∨ a.score = b.score ∧ a.ownerId ≤ b.ownerId

instance : DecidableRel (Ranks (σ := σ)) := fun a b =>
  inferInstanceAs (Decidable (b.score < a.score ∨ a.score = b.score ∧ a.ownerId ≤ b.ownerId))

structure HnswSearchState (σ : Type) where
  visited : List Int
  candidates : List (VectorQueueItem σ)
  nearest : List (VectorQueueItem σ)

structure HnswLayerResult (σ : Type) where
  items : List (VectorQueueItem σ)
  visitedCount : Nat
  deriving DecidableEq, Repr

/-- What a search ends with: its nearest items, best first. -/
def HnswSearchState.result (state : HnswSearchState σ) : HnswLayerResult σ :=
  ⟨state.nearest, state.visited.length⟩

/-- `self.nearest.peek().is_none_or(|Reverse(worst)| item > *worst)`. -/
def beatsWorst (item : VectorQueueItem σ) (nearest : List (VectorQueueItem σ)) : Bool :=
  match nearest.getLast? with
  | none => true
  | some worst => decide (¬ Ranks worst item)

def HnswSearchState.enqueue (state : HnswSearchState σ) (item : VectorQueueItem σ) :
    HnswSearchState σ :=
  { state with
    candidates := state.candidates.orderedInsert Ranks item
    nearest := state.nearest.orderedInsert Ranks item }

def HnswSearchState.keep (state : HnswSearchState σ) (item : VectorQueueItem σ) (ef : Nat) :
    HnswSearchState σ :=
  if state.nearest.length < ef ∨ beatsWorst item state.nearest = true then
    let kept := state.enqueue item
    if ef < kept.nearest.length then { kept with nearest := kept.nearest.dropLast } else kept
  else state

variable (similarity : ν → ν → QueryResult σ) (graph : VectorCacheGraph ν) (query : ν)
  (level ef : Nat)

/-- One neighbour of the candidate at hand. -/
def visitNeighbor (state : HnswSearchState σ) (neighborId : Int) :
    QueryResult (HnswSearchState σ) :=
  if neighborId ∈ state.visited then .ok state
  else
    let state := { state with visited := neighborId :: state.visited }
    match graph[neighborId]? with
    | none => .ok state
    | some neighbor =>
      if neighbor.level < level then .ok state
      else do
        let score ← similarity neighbor.vector query
        .ok (state.keep ⟨neighborId, score⟩ ef)

/-- The candidates are worse than all that is kept, and no more may be kept. -/
def settled (state : HnswSearchState σ) (candidate : VectorQueueItem σ) : Bool :=
  decide (ef ≤ state.nearest.length) &&
    match state.nearest.getLast? with
    | none => false
    | some worst => decide (¬ Ranks candidate worst)

/-- The loop over the candidates; `none` when the fuel ends first. -/
def searchLoop : Nat → HnswSearchState σ → QueryResult (Option (HnswSearchState σ))
  | 0, _ => .ok none
  | fuel + 1, state =>
    match state.candidates with
    | [] => .ok (some state)
    | candidate :: candidates =>
      if settled ef state candidate = true then .ok (some state)
      else
        let state := { state with candidates := candidates }
        match graph[candidate.ownerId]?.bind (·.neighbors[level]?) with
        | none => searchLoop fuel state
        | some neighbors => do
          let state ← neighbors.foldlM (visitNeighbor similarity graph query level ef) state
          searchLoop fuel state

/-- The entry point, as far as it is present on the level. -/
def initializeMemorySearch (entryPoint : Int) : QueryResult (HnswSearchState σ) :=
  match graph[entryPoint]? with
  | none => .ok ⟨[], [], []⟩
  | some entry =>
    if entry.level < level then .ok ⟨[], [], []⟩
    else do
      let score ← similarity entry.vector query
      .ok ⟨[entryPoint], [⟨entryPoint, score⟩], [⟨entryPoint, score⟩]⟩

/-- A loop takes every entry up once at most. -/
def hnswSearchLayer (entryPoint : Int) : QueryResult (HnswLayerResult σ) := do
  let state ← initializeMemorySearch similarity graph query level entryPoint
  let final ← searchLoop similarity graph query level (max ef 1) (graph.size + 1) state
  .ok (final.getD state).result

end Search

/-! ## 3. Selection, connection, pruning -/

section Insertion

variable {ν σ : Type} [LinearOrder σ] (similarity : ν → ν → QueryResult σ) (maximum ef : Nat)

/-- `if let Some(best) = result.items.first() { current = best.owner_id }`. -/
def bestOwner (items : List (VectorQueueItem σ)) (current : Int) : Int :=
  match items.head? with
  | none => current
  | some best => best.ownerId

/-- The levels from `bottom + count - 1` down to `bottom`. -/
def descend (graph : VectorCacheGraph ν) (query : ν) (bottom : Nat) : Nat → Int → QueryResult Int
  | 0, current => .ok current
  | count + 1, current => do
    let result ← hnswSearchLayer similarity graph query (bottom + count) 1 current
    descend graph query bottom count (bestOwner result.items current)

/-- The levels from `count - 1` down to the lowest. -/
def selectLevels (graph : VectorCacheGraph ν) (query : ν) :
    Nat → Int → List (List Int) → QueryResult (List (List Int))
  | 0, _, selected => .ok selected
  | level + 1, current, selected => do
    let result ← hnswSearchLayer similarity graph query level (max (min ef graph.size) 1) current
    selectLevels graph query level (bestOwner result.items current)
      (selected.set level ((result.items.take maximum).map (·.ownerId)))

def selectHnswNeighborsForNewEntry (graph : VectorCacheGraph ν) (entryOwnerId : Int)
    (maxLevel : Nat) (entry : VectorCacheEntry ν) : QueryResult (List (List Int)) := do
  let current ←
    descend similarity graph entry.vector (entry.level + 1) (maxLevel - entry.level) entryOwnerId
  selectLevels similarity maximum ef graph entry.vector (min entry.level maxLevel + 1) current
    (List.replicate (entry.level + 1) [])

/-- Each neighbour with its similarity to the vector. -/
def scoreNeighbors (graph : VectorCacheGraph ν) (vector : ν) (neighbors : List Int) :
    QueryResult (List (VectorQueueItem σ)) :=
  neighbors.mapM fun neighborId =>
    match graph[neighborId]? with
    | none => .error (QueryError.internal "HNSW prune neighbor is missing")
    | some neighbor => do
      let score ← similarity vector neighbor.vector
      .ok ⟨neighborId, score⟩

def pruneHnswNeighbors (graph : VectorCacheGraph ν) (ownerId : Int) (level layerMaximum : Nat) :
    QueryResult (List Int) :=
  match graph[ownerId]? with
  | none => .error (QueryError.internal "HNSW prune owner is missing")
  | some entry =>
    match entry.neighbors[level]? with
    | none => .error (QueryError.internal "HNSW prune layer is missing")
    | some neighbors => do
      let scored ← scoreNeighbors similarity graph entry.vector neighbors
      .ok (((scored.insertionSort Ranks).take layerMaximum).map (·.ownerId))

/-- Puts a list of neighbours in the place of a layer. -/
def VectorCacheEntry.withLayer (entry : VectorCacheEntry ν) (level : Nat) (layer : List Int) :
    VectorCacheEntry ν :=
  { entry with neighbors := entry.neighbors.set level layer }

def connectHnswNeighbor (graph : VectorCacheGraph ν) (ownerId neighborId : Int)
    (level layerMaximum : Nat) : QueryResult (VectorCacheGraph ν) :=
  match graph[neighborId]? with
  | none => .error (QueryError.internal "HNSW selected a missing neighbor")
  | some neighbor =>
    match neighbor.neighbors[level]? with
    | none => .error (QueryError.internal "HNSW selected a neighbor below the layer")
    | some layer => do
      let layer := if ownerId ∈ layer then layer else layer ++ [ownerId]
      let graph := graph.insert neighborId (neighbor.withLayer level layer)
      let pruned ← pruneHnswNeighbors similarity graph neighborId level layerMaximum
      match graph[neighborId]?.filter (level < ·.neighbors.length) with
      | none => .error (QueryError.internal "HNSW neighbor layer disappeared")
      | some neighbor => .ok (graph.insert neighborId (neighbor.withLayer level pruned))

def usizeMax : Nat := 2 ^ 64 - 1

/-- `maximum.saturating_mul(2)` on the lowest level. -/
def layerMaximum (level : Nat) : Nat :=
  if level = 0 then min (maximum * 2) usizeMax else maximum

/-- The selected neighbours, from `level` on upwards. -/
def connectLevels (ownerId : Int) :
    Nat → List (List Int) → VectorCacheGraph ν → QueryResult (VectorCacheGraph ν)
  | _, [], graph => .ok graph
  | level, neighbors :: selected, graph => do
    let graph ← neighbors.foldlM (fun graph neighborId =>
      connectHnswNeighbor similarity graph ownerId neighborId level (layerMaximum maximum level))
      graph
    connectLevels ownerId (level + 1) selected graph

def connectHnswEntry (graph : VectorCacheGraph ν) (ownerId : Int) :
    QueryResult (VectorCacheGraph ν) :=
  match graph[ownerId]? with
  | none => .error (QueryError.internal "new HNSW entry disappeared during construction")
  | some entry => connectLevels similarity maximum ownerId 0 entry.neighbors graph

/-- What the loop of the build carries. -/
structure HnswBuild (ν : Type) where
  graph : VectorCacheGraph ν
  entryOwnerId : Option Int
  maxLevel : Nat

/-- One round of the loop. -/
def insertEntry (build : HnswBuild ν) (entry : VectorCacheEntry ν) : QueryResult (HnswBuild ν) :=
  if build.graph.isEmpty then
    .ok ⟨build.graph.insert entry.ownerId entry, some entry.ownerId, entry.level⟩
  else match build.entryOwnerId with
    | none => .error
        (QueryError.internal "HNSW graph is missing its entry point during construction")
    | some current => do
      let selected ← selectHnswNeighborsForNewEntry similarity maximum ef build.graph current
        build.maxLevel entry
      let graph ← connectHnswEntry similarity maximum
        (build.graph.insert entry.ownerId { entry with neighbors := selected }) entry.ownerId
      if build.maxLevel < entry.level then .ok ⟨graph, some entry.ownerId, entry.level⟩
      else .ok ⟨graph, build.entryOwnerId, build.maxLevel⟩

end Insertion

/-! ## 4. Levels, and the ring of a single connection -/

section Levels

variable {ν : Type} (hash : Int → Nat) (maximum : Nat)

/-- How often the base divides the value, up to a number of times. -/
def levelLoop (base : Nat) : Nat → Nat → Nat
  | 0, _ => 0
  | rest + 1, value => if value % base = 0 then levelLoop base rest (value / base) + 1 else 0

/-- The level of an owner, from the first word of the digest of its id. -/
def deterministicHnswLevel (ownerId : Int) : Nat := levelLoop (max maximum 2) 32 (hash ownerId)

def initializeHnswEntries (entries : List (VectorCacheEntry ν)) : List (VectorCacheEntry ν) :=
  entries.map fun entry =>
    let level := deterministicHnswLevel hash maximum entry.ownerId
    { entry with level := level, neighbors := List.replicate (level + 1) [] }

/-- The entries of a level, each linked to the one that follows it among the owners. -/
def linkRing (owners : List Int) (level : Nat) :
    Nat → List (VectorCacheEntry ν) → List (VectorCacheEntry ν)
  | _, [] => []
  | position, entry :: entries =>
    if level ≤ entry.level then
      entry.withLayer level [owners.getD ((position + 1) % owners.length) 0] ::
        linkRing owners level (position + 1) entries
    else entry :: linkRing owners level position entries

def levelOwners (entries : List (VectorCacheEntry ν)) (level : Nat) : List Int :=
  (entries.filter (level ≤ ·.level)).map (·.ownerId)

def connectSingleNeighborHnswLayers (entries : List (VectorCacheEntry ν)) :
    List (VectorCacheEntry ν) :=
  let maxLevel := (entries.map (·.level)).foldl max 0
  (List.range (maxLevel + 1)).foldl (fun entries level =>
    let owners := levelOwners entries level
    if owners.length ≤ 1 then entries else linkRing owners level 0 entries) entries

end Levels

/-! ## 5. The build -/

section Build

variable {ν σ : Type} [LinearOrder σ] (similarity : ν → ν → QueryResult σ) (hash : Int → Nat)
  (maximum ef : Nat)

/-- The entries as the build takes them up. -/
def orderedEntries (entries : List (VectorCacheEntry ν)) : List (VectorCacheEntry ν) :=
  initializeHnswEntries hash maximum (entries.insertionSort (·.ownerId ≤ ·.ownerId))

def buildHnswGraphWithParameters (entries : List (VectorCacheEntry ν)) :
    QueryResult (List (VectorCacheEntry ν)) :=
  let entries := orderedEntries hash maximum entries
  if maximum = 1 then .ok (connectSingleNeighborHnswLayers entries)
  else do
    let build ← entries.foldlM (insertEntry similarity maximum ef) ⟨∅, none, 0⟩
    .ok (build.graph.toList.map (·.2))

end Build

end Lithograph.Query.SemanticIndex
