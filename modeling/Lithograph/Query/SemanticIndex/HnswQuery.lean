/-
  File:      Lithograph/Query/SemanticIndex/HnswQuery.lean
  Subject:   How the vector cache is searched, in memory and with entries loaded one by one
             (`query/semantic_index/hnsw.rs`, `hnsw/cache.rs`).

  A lazy search carries the cache along and gives up (`Ok(None)`) on whatever it cannot use. A row
  is stored as the entry that its columns spell. Reservations of memory are left out.
-/
import Lithograph.Query.SemanticIndex.Hnsw

namespace Lithograph.Query.SemanticIndex

open Lithograph.Library

/-! ## 1. The search in memory -/

section Memory

variable {ν σ : Type} [LinearOrder σ] (similarity : ν → ν → QueryResult σ)
  (graph : VectorCacheGraph ν) (query : ν)

/-- The greedy descent to level one, and the search on level zero. -/
def hnswSearch (entryOwnerId : Int) (maxLevel efSearch : Nat) :
    QueryResult (HnswLayerResult σ) := do
  let current ← descend similarity graph query 1 maxLevel entryOwnerId
  hnswSearchLayer similarity graph query 0 (max efSearch 1) current

end Memory

/-! ## 2. Entries loaded one by one -/

structure SqlVectorCache (ν : Type) where
  stored : VectorCacheGraph ν
  loaded : VectorCacheGraph ν

/-- A search over the cache that may give up. -/
abbrev LazySearch (ν : Type) : Type → Type :=
  StateT (SqlVectorCache ν) (OptionT (Except QueryError))

section Lazy

variable {ν : Type}

def giveUp {α : Type} : LazySearch ν α := fun _ => OptionT.mk (.ok none)

/-- A computation that does not look at the cache. -/
def directly {α : Type} (x : QueryResult α) : LazySearch ν α := fun cache =>
  OptionT.mk (x.map fun a => some (a, cache))

variable (dimension : ν → Nat)

def decodeCacheRow (ownerId : Int) (row : VectorCacheEntry ν) : Option (VectorCacheEntry ν) :=
  if 32 < row.level then none
  else if dimension row.vector = 0 ∨ row.neighbors.length ≠ row.level + 1 then none
  else some { row with ownerId := ownerId }

/-- `SqlVectorCache::entry`: what was loaded before, or the stored row. -/
def loadEntry (ownerId : Int) : LazySearch ν (VectorCacheEntry ν) := fun cache =>
  OptionT.mk (.ok (match cache.loaded[ownerId]? with
    | some entry => some (entry, cache)
    | none =>
      (cache.stored[ownerId]?.bind (decodeCacheRow dimension ownerId)).map fun entry =>
        (entry, { cache with loaded := cache.loaded.insert ownerId entry })))

variable {σ : Type} [LinearOrder σ] (similarity : ν → ν → QueryResult σ) (query : ν)
  (level ef : Nat)

def initializeSqlSearch (entryPoint : Int) : LazySearch ν (HnswSearchState σ) := do
  let entry ← loadEntry dimension entryPoint
  if entry.level < level then return ⟨[], [], []⟩
  else if dimension entry.vector ≠ dimension query then giveUp
  else do
    let score ← directly (similarity entry.vector query)
    return ⟨[entryPoint], [⟨entryPoint, score⟩], [⟨entryPoint, score⟩]⟩

/-- One neighbour of the candidate at hand. -/
def visitSqlNeighbor (candidateId : Int) (state : HnswSearchState σ) (neighborId : Int) :
    LazySearch ν (HnswSearchState σ) :=
  if neighborId = candidateId then giveUp
  else if neighborId ∈ state.visited then return state
  else do
    let state := { state with visited := neighborId :: state.visited }
    let neighbor ← loadEntry dimension neighborId
    if neighbor.level < level ∨ dimension neighbor.vector ≠ dimension query then giveUp
    else do
      let score ← directly (similarity neighbor.vector query)
      return state.keep ⟨neighborId, score⟩ ef

def expandSqlCandidate (candidateId : Int) (state : HnswSearchState σ) :
    LazySearch ν (HnswSearchState σ) := do
  let entry ← loadEntry dimension candidateId
  match entry.neighbors[level]? with
  | none => giveUp
  | some neighbors =>
    neighbors.foldlM (visitSqlNeighbor dimension similarity query level ef candidateId) state

/-- The loop over the candidates; `none` when the fuel ends first. -/
def searchLoopSql : Nat → HnswSearchState σ → LazySearch ν (Option (HnswSearchState σ))
  | 0, _ => return none
  | fuel + 1, state =>
    match state.candidates with
    | [] => return some state
    | candidate :: candidates =>
      if settled ef state candidate = true then return some state
      else do
        let state ← expandSqlCandidate dimension similarity query level ef candidate.ownerId
          { state with candidates := candidates }
        searchLoopSql fuel state

/-- The number of rows bounds the rounds, as it does in memory. -/
def hnswSearchLayerSql (rows : Nat) (entryPoint : Int) : LazySearch ν (HnswLayerResult σ) := do
  let state ← initializeSqlSearch dimension similarity query level entryPoint
  let final ← searchLoopSql dimension similarity query level (max ef 1) (rows + 1) state
  return (final.getD state).result

/-- The levels from `count` down to one. -/
def descendSql (rows : Nat) : Nat → Int → LazySearch ν Int
  | 0, current => return current
  | count + 1, current => do
    let result ← hnswSearchLayerSql dimension similarity query (1 + count) 1 rows current
    descendSql rows count (bestOwner result.items current)

def hnswSearchSql (rows : Nat) (entryOwnerId : Int) (maxLevel efSearch : Nat) :
    LazySearch ν (HnswLayerResult σ) := do
  let current ← descendSql dimension similarity query rows maxLevel entryOwnerId
  hnswSearchLayerSql dimension similarity query 0 (max efSearch 1) rows current

end Lazy

/-! ## 3. The widening search -/

structure SemanticHit (η σ : Type) where
  entity : η
  score : σ
  deriving DecidableEq, Repr

structure VectorCandidateResult (η σ : Type) where
  hits : List (SemanticHit η σ)
  exhaustive : Bool
  deriving DecidableEq, Repr

section Widening

variable {ν σ η : Type} [LinearOrder σ] (entityId : η → Int)

/-- The order of `sort_semantic_hits_controlled`: the higher score first, then the lower id. -/
def HitRanks (a b : SemanticHit η σ) : Prop :=
  b.score < a.score ∨ a.score = b.score ∧ entityId a.entity ≤ entityId b.entity

instance : DecidableRel (HitRanks entityId (σ := σ)) := fun a b =>
  inferInstanceAs (Decidable
    (b.score < a.score ∨ a.score = b.score ∧ entityId a.entity ≤ entityId b.entity))

/-- The hits of the items that the filter lets through, ranked. -/
def rankedHits (hitOf : VectorQueueItem σ → QueryResult (Option (SemanticHit η σ)))
    (items : List (VectorQueueItem σ)) : QueryResult (List (SemanticHit η σ)) := do
  let hits ← items.mapM hitOf
  .ok ((hits.filterMap id).insertionSort (HitRanks entityId))

/-- `managed_hits_from_layer`: the score is that of the search. -/
def managedHit (resolveEntity : Int → QueryResult (Option η)) (item : VectorQueueItem σ) :
    QueryResult (Option (SemanticHit η σ)) := do
  let entity ← resolveEntity item.ownerId
  .ok (entity.map fun entity => ⟨entity, item.score⟩)

variable (dimension : ν → Nat) (similarity : ν → ν → QueryResult σ) (query : ν)
  (hitOf : VectorQueueItem σ → QueryResult (Option (SemanticHit η σ)))

/-- The loop of `search_managed_vector_cache` and of `search_vector_cache`; `none` when the fuel
    ends first. -/
def widenSearch (rows : Nat) (entryOwnerId : Int) (maxLevel entryCount desired : Nat) :
    Nat → Nat → LazySearch ν (Option (VectorCandidateResult η σ))
  | 0, _ => return none
  | fuel + 1, efSearch => do
    let layer ← hnswSearchSql dimension similarity query rows entryOwnerId maxLevel efSearch
    let exhaustive := decide (entryCount ≤ efSearch) && layer.visitedCount == entryCount
    let hits ← directly (rankedHits entityId hitOf layer.items)
    let next := min (max (efSearch * 2) (efSearch + 1)) entryCount
    if desired ≤ hits.length ∨ exhaustive = true then return some ⟨hits, exhaustive⟩
    else if efSearch = entryCount then giveUp
    else widenSearch rows entryOwnerId maxLevel entryCount desired fuel next

/-- `open_sql_vector_cache`: the entry point can be used. -/
def openSqlVectorCache (cacheMeta : VectorCacheMeta) : LazySearch ν Int :=
  if 32 < cacheMeta.maxLevel then giveUp
  else match cacheMeta.entryOwnerId with
    | none => giveUp
    | some entryOwnerId => do
      let entry ← loadEntry dimension entryOwnerId
      if entry.level ≠ cacheMeta.maxLevel ∨ dimension entry.vector ≠ dimension query then giveUp
      else return entryOwnerId

/-- `query_managed_vector_cache_controlled` and `query_vector_cache_controlled`, which differ in
    what they make of an item. -/
def queryVectorCache (stored : VectorCacheGraph ν) (cacheMeta : VectorCacheMeta)
    (candidateLimit : Nat) : LazySearch ν (Option (VectorCandidateResult η σ)) :=
  if cacheMeta.entryCount = 0 then
    if cacheMeta.entryOwnerId.isNone && cacheMeta.maxLevel == 0 && stored.isEmpty then
      return some ⟨[], true⟩
    else giveUp
  else do
    let entryOwnerId ← openSqlVectorCache dimension query cacheMeta
    let desired := min (max candidateLimit 1) cacheMeta.entryCount
    widenSearch entityId dimension similarity query hitOf stored.size entryOwnerId
      cacheMeta.maxLevel cacheMeta.entryCount desired (cacheMeta.entryCount + 1) desired

end Widening

end Lithograph.Query.SemanticIndex
