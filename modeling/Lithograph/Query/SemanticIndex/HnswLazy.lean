/-
  File:      Lithograph/Query/SemanticIndex/HnswLazy.lean
  Subject:   The search that loads entries one by one finds what the search in memory finds.

  * **`hnswSearchSql_mirrors`**: so do the two searches, on a graph whose links hold.
-/
import Lithograph.Query.SemanticIndex.HnswQuery
import Lithograph.Query.SemanticIndex.HnswAccept

namespace Lithograph.Query.SemanticIndex

open Lithograph.Library

variable {ν σ : Type}

/-! ## 1. Lazy and direct -/

section Mirrors

variable {α β : Type} {graph : VectorCacheGraph ν}

/-- The rows are those of the graph, and so is what was loaded. -/
structure Coherent (graph : VectorCacheGraph ν) (cache : SqlVectorCache ν) : Prop where
  stored : cache.stored = graph
  loaded : ∀ (ownerId : Int) (entry : VectorCacheEntry ν), cache.loaded[ownerId]? = some entry →
    graph[ownerId]? = some entry

/-- **The lazy search ends as the direct one**, or gives up where that one fails. -/
def Mirrors (graph : VectorCacheGraph ν) (lazy : LazySearch ν α) (direct : QueryResult α) : Prop :=
  ∀ cache, Coherent graph cache →
    (∃ a cache', direct = .ok a ∧ Coherent graph cache' ∧
      lazy cache = OptionT.mk (.ok (some (a, cache')))) ∨
    ∃ error, direct = .error error ∧
      (lazy cache = OptionT.mk (.error error) ∨ lazy cache = OptionT.mk (.ok none))

variable {lazy : LazySearch ν α} {f : α → LazySearch ν β} {cache : SqlVectorCache ν}

theorem lazy_bind_some {a : α}
    {cache cache' : SqlVectorCache ν} (h : lazy cache = OptionT.mk (.ok (some (a, cache')))) :
    (lazy >>= f) cache = f a cache' := by
  change OptionT.bind (lazy cache) _ = _
  rw [h]
  rfl

theorem lazy_bind_none (h : lazy cache = OptionT.mk (.ok none)) :
    (lazy >>= f) cache = OptionT.mk (.ok none) := by
  change OptionT.bind (lazy cache) _ = _
  rw [h]
  rfl

theorem lazy_bind_error {error : QueryError} (h : lazy cache = OptionT.mk (.error error)) :
    (lazy >>= f) cache = OptionT.mk (.error error) := by
  change OptionT.bind (lazy cache) _ = _
  rw [h]
  rfl

theorem mirrors_pure (a : α) : Mirrors graph (pure a : LazySearch ν α) (.ok a) :=
  fun cache hcache => .inl ⟨a, cache, rfl, hcache, rfl⟩

theorem mirrors_giveUp {error : QueryError} :
    Mirrors graph (giveUp : LazySearch ν α) (.error error) :=
  fun _ _ => .inr ⟨error, rfl, .inr rfl⟩

theorem directly_mirrors (x : QueryResult α) : Mirrors graph (directly x) x := by
  intro cache hcache
  cases x with
  | ok a => exact .inl ⟨a, cache, rfl, hcache, rfl⟩
  | error error => exact .inr ⟨error, rfl, .inl rfl⟩

theorem Mirrors.bind {direct : QueryResult α}
    {g : α → QueryResult β} (h : Mirrors graph lazy direct)
    (hf : ∀ a, direct = .ok a → Mirrors graph (f a) (g a)) :
    Mirrors graph (lazy >>= f) (direct >>= g) := by
  intro cache hcache
  rcases h cache hcache with ⟨a, cache', hdirect, hcache', hlazy⟩ | ⟨error, hdirect, hlazy⟩
  · rw [lazy_bind_some hlazy, hdirect, ok_bind]
    exact hf a hdirect cache' hcache'
  · rw [hdirect, error_bind]
    refine .inr ⟨error, rfl, ?_⟩
    rcases hlazy with hlazy | hlazy
    · exact .inl (lazy_bind_error hlazy)
    · exact .inr (lazy_bind_none hlazy)

theorem Mirrors.foldlM {s : Type} {f : s → α → LazySearch ν s} {g : s → α → QueryResult s} :
    ∀ {l : List α}, (∀ state, ∀ a ∈ l, Mirrors graph (f state a) (g state a)) → ∀ state,
      Mirrors graph (l.foldlM f state) (l.foldlM g state)
  | [], _, state => mirrors_pure state
  | a :: l, h, state => by
    refine (h state a (.head _)).bind fun next _ => ?_
    exact Mirrors.foldlM (fun other b hb => h other b (.tail _ hb)) next

theorem Mirrors.some_iff {direct : QueryResult α}
    (h : Mirrors graph lazy direct) (hcache : Coherent graph cache)
    {a : α} :
    (∃ cache', lazy cache = OptionT.mk (.ok (some (a, cache')))) ↔ direct = .ok a := by
  rcases h cache hcache with ⟨b, other, hdirect, _, hlazy⟩ | ⟨error, hdirect, hlazy⟩
  · rw [hdirect, hlazy]
    constructor
    · intro hsame
      obtain ⟨cache', hsame⟩ := hsame
      cases hsame
      rfl
    · intro hsame
      cases hsame
      exact ⟨other, rfl⟩
  · rw [hdirect]
    constructor
    · intro hsome
      obtain ⟨cache', hsome⟩ := hsome
      rcases hlazy with hlazy | hlazy
      · rw [hlazy] at hsome
        cases hsome
      · rw [hlazy] at hsome
        cases hsome
    · intro hno
      cases hno

end Mirrors

/-! ## 2. One entry loaded -/

section Load

variable {graph : VectorCacheGraph ν} {dimension : ν → Nat}

/-- Every row of the graph is read back as it is. -/
def Readable (dimension : ν → Nat) (graph : VectorCacheGraph ν) : Prop :=
  ∀ (ownerId : Int) (entry : VectorCacheEntry ν), graph[ownerId]? = some entry →
    decodeCacheRow dimension ownerId entry = some entry

variable {ownerId : Int} {entry : VectorCacheEntry ν}

theorem Readable.spec (h : Readable dimension graph) (hentry : graph[ownerId]? = some entry) :
    entry.ownerId = ownerId ∧ entry.level ≤ 32 ∧ entry.neighbors.length = entry.level + 1 := by
  have hdecoded := h ownerId entry hentry
  unfold decodeCacheRow at hdecoded
  split at hdecoded
  · cases hdecoded
  · rename_i hlevel
    split at hdecoded
    · cases hdecoded
    · rename_i hshape
      have howner := congrArg VectorCacheEntry.ownerId (Option.some_inj.mp hdecoded)
      exact ⟨howner.symm, Nat.le_of_not_lt hlevel, of_not_not fun hne => hshape (.inr hne)⟩

theorem loadEntry_some (h : Readable dimension graph)
    (hentry : graph[ownerId]? = some entry) {cache : SqlVectorCache ν}
    (hcache : Coherent graph cache) :
    ∃ cache', Coherent graph cache' ∧
      loadEntry dimension ownerId cache = OptionT.mk (.ok (some (entry, cache'))) := by
  unfold loadEntry
  cases hloaded : cache.loaded[ownerId]? with
  | some other =>
    have hsame := hcache.loaded ownerId other hloaded
    rw [hentry] at hsame
    cases hsame
    exact ⟨cache, hcache, rfl⟩
  | none =>
    rw [hcache.stored, hentry, Option.bind_some, h ownerId entry hentry]
    refine ⟨_, ⟨rfl, fun id other hother => ?_⟩, rfl⟩
    rw [lookup_insert] at hother
    split at hother
    · rename_i hid
      cases hother
      rw [hid]
      exact hentry
    · exact hcache.loaded id other hother

theorem loadEntry_mirrors {α : Type} (h : Readable dimension graph)
    (hentry : graph[ownerId]? = some entry)
    {f : VectorCacheEntry ν → LazySearch ν α} {direct : QueryResult α}
    (hf : Mirrors graph (f entry) direct) :
    Mirrors graph (loadEntry dimension ownerId >>= f) direct := by
  intro cache hcache
  obtain ⟨cache', hcache', hload⟩ := loadEntry_some h hentry hcache
  rw [lazy_bind_some hload]
  exact hf cache' hcache'

end Load

/-! ## 3. One layer -/

/-- Every link leads to another entry that is present on its level. -/
def LinksHold (graph : VectorCacheGraph ν) : Prop :=
  ∀ (ownerId : Int) (entry : VectorCacheEntry ν), graph[ownerId]? = some entry →
    ∀ level layer, entry.neighbors[level]? = some layer →
      ∀ v ∈ layer, v ≠ entry.ownerId ∧ PresentOn graph level v

theorem linksHold_of_valid {graph : VectorCacheGraph ν} {maxLevel : Nat}
    (h : vectorCacheLinksValid graph maxLevel = true) : LinksHold graph := by
  intro ownerId entry hentry level layer hlayer v hv
  have hitem := List.all_eq_true.mp h (ownerId, entry) (mem_of_lookup hentry)
  have hlayers := (Bool.and_eq_true_iff.mp hitem).2
  have hneighbors := List.all_eq_true.mp hlayers (layer, level)
    (List.mem_zipIdx_iff_getElem?.mpr hlayer)
  have hlink := List.all_eq_true.mp hneighbors v hv
  obtain ⟨hne, hpresent⟩ := Bool.and_eq_true_iff.mp hlink
  refine ⟨bne_iff_ne.mp hne, ?_⟩
  cases hneighbor : graph[v]? with
  | none =>
    rw [hneighbor] at hpresent
    cases hpresent
  | some neighbor =>
    rw [hneighbor] at hpresent
    exact ⟨neighbor, hneighbor, of_decide_eq_true hpresent⟩

/-- The similarity of vectors of different dimensions is an error. -/
def SameDimension (dimension : ν → Nat) (similarity : ν → ν → QueryResult σ) : Prop :=
  ∀ left right, dimension left ≠ dimension right → ∃ error, similarity left right = .error error

variable {entryPoint : Int}

section Layer

variable {graph : VectorCacheGraph ν} {dimension : ν → Nat} {similarity : ν → ν → QueryResult σ}
  {query : ν} {level ef : Nat}

theorem score_mirrors {α : Type} (hsame : SameDimension dimension similarity) (vector : ν)
    (g : σ → α) :
    Mirrors graph
      (if dimension vector ≠ dimension query then giveUp else do
        let score ← directly (similarity vector query)
        return g score)
      (similarity vector query >>= fun score => .ok (g score)) := by
  by_cases hdimension : dimension vector = dimension query
  · rw [if_neg (not_not.mpr hdimension)]
    exact (directly_mirrors _).bind fun score _ => mirrors_pure (g score)
  · obtain ⟨error, herror⟩ := hsame vector query hdimension
    rw [if_pos hdimension, herror, error_bind]
    exact mirrors_giveUp

theorem initialize_mirrors (hreadable : Readable dimension graph)
    (hsame : SameDimension dimension similarity) (hentry : PresentOn graph level entryPoint) :
    Mirrors graph (initializeSqlSearch dimension similarity query level entryPoint)
      (initializeMemorySearch similarity graph query level entryPoint) := by
  obtain ⟨entry, hfound, hlevel⟩ := hentry
  unfold initializeSqlSearch initializeMemorySearch
  rw [hfound]
  dsimp only
  rw [if_neg (Nat.not_lt.mpr hlevel)]
  refine loadEntry_mirrors hreadable hfound ?_
  rw [if_neg (Nat.not_lt.mpr hlevel)]
  exact score_mirrors hsame entry.vector fun score =>
    (⟨[entryPoint], [⟨entryPoint, score⟩], [⟨entryPoint, score⟩]⟩ : HnswSearchState σ)

/-- The candidates of a search are entries of its level. -/
def CandidatesPresent (graph : VectorCacheGraph ν) (level : Nat) (state : HnswSearchState σ) :
    Prop := ∀ item ∈ state.candidates, PresentOn graph level item.ownerId

theorem initialize_candidates {state : HnswSearchState σ}
    (hentry : PresentOn graph level entryPoint)
    (h : initializeMemorySearch similarity graph query level entryPoint = .ok state) :
    CandidatesPresent graph level state := by
  obtain ⟨entry, hfound, hlevel⟩ := id hentry
  unfold initializeMemorySearch at h
  rw [hfound] at h
  dsimp only at h
  rw [if_neg (Nat.not_lt.mpr hlevel)] at h
  obtain ⟨score, _, hresult⟩ := bind_eq_ok.mp h
  cases hresult
  intro item hitem
  rw [List.mem_singleton.mp hitem]
  exact hentry

variable [LinearOrder σ]

theorem visit_mirrors (hreadable : Readable dimension graph)
    (hsame : SameDimension dimension similarity) {candidateId neighborId : Int}
    (hne : neighborId ≠ candidateId) (hpresent : PresentOn graph level neighborId)
    (state : HnswSearchState σ) :
    Mirrors graph (visitSqlNeighbor dimension similarity query level ef candidateId state
      neighborId) (visitNeighbor similarity graph query level ef state neighborId) := by
  obtain ⟨neighbor, hfound, hlevel⟩ := hpresent
  unfold visitSqlNeighbor visitNeighbor
  rw [if_neg hne]
  split
  · exact mirrors_pure state
  · rw [hfound]
    dsimp only
    rw [if_neg (Nat.not_lt.mpr hlevel)]
    refine loadEntry_mirrors hreadable hfound ?_
    let keepScore : σ → HnswSearchState σ := fun score =>
      { state with visited := neighborId :: state.visited }.keep ⟨neighborId, score⟩ ef
    have hscore : Mirrors graph
        (if dimension neighbor.vector ≠ dimension query then giveUp else do
          let score ← directly (similarity neighbor.vector query)
          return keepScore score)
        (similarity neighbor.vector query >>= fun score => .ok (keepScore score)) :=
      score_mirrors hsame neighbor.vector keepScore
    by_cases hdimension : dimension neighbor.vector = dimension query
    · rw [if_neg (by simp [hdimension, hlevel])]
      rw [if_neg (not_not.mpr hdimension)] at hscore
      exact hscore
    · rw [if_pos (.inr hdimension)]
      rw [if_pos hdimension] at hscore
      exact hscore

theorem keep_candidates {state : HnswSearchState σ} {item other : VectorQueueItem σ}
    (h : other ∈ (state.keep item ef).candidates) : other = item ∨ other ∈ state.candidates := by
  unfold HnswSearchState.keep at h
  split at h
  · have hqueue : other ∈ state.candidates.orderedInsert Ranks item := by
      dsimp only [HnswSearchState.enqueue] at h
      split at h
      · exact h
      · exact h
    exact List.mem_cons.mp ((List.perm_orderedInsert Ranks item _).mem_iff.mp hqueue)
  · exact .inr h

theorem visitNeighbor_candidates {state state' : HnswSearchState σ} {neighborId : Int}
    (h : CandidatesPresent graph level state)
    (hvisit : visitNeighbor similarity graph query level ef state neighborId = .ok state') :
    CandidatesPresent graph level state' := by
  unfold visitNeighbor at hvisit
  split at hvisit
  · cases hvisit
    exact h
  · split at hvisit
    · cases hvisit
      exact h
    · rename_i neighbor hneighbor
      split at hvisit
      · cases hvisit
        exact h
      · rename_i hlevel
        obtain ⟨score, _, hresult⟩ := bind_eq_ok.mp hvisit
        cases hresult
        intro item hitem
        rcases keep_candidates hitem with rfl | hold
        · exact ⟨neighbor, hneighbor, Nat.le_of_not_lt hlevel⟩
        · exact h item hold

/-- **The loops go hand in hand.** -/
theorem searchLoop_mirrors (hreadable : Readable dimension graph) (hlinks : LinksHold graph)
    (hsame : SameDimension dimension similarity) :
    ∀ (fuel : Nat) {state : HnswSearchState σ}, CandidatesPresent graph level state →
      Mirrors graph (searchLoopSql dimension similarity query level ef fuel state)
        (searchLoop similarity graph query level ef fuel state)
  | 0, state, _ => mirrors_pure none
  | fuel + 1, state, h => by
    unfold searchLoopSql searchLoop
    cases hcandidates : state.candidates with
    | nil => exact mirrors_pure (some state)
    | cons candidate candidates =>
      dsimp only
      split
      · exact mirrors_pure (some state)
      · have hcandidate : candidate ∈ state.candidates := by
          rw [hcandidates]
          exact .head _
        obtain ⟨entry, hentry, hlevel⟩ := h candidate hcandidate
        obtain ⟨howner, _, hlength⟩ := hreadable.spec hentry
        have hlayer := List.getElem?_eq_getElem (l := entry.neighbors) (i := level) (by omega)
        have hpopped : CandidatesPresent graph level { state with candidates := candidates } :=
          fun item hitem => h item (by rw [hcandidates]; exact .tail _ hitem)
        rw [hentry, Option.bind_some, hlayer]
        -- the neighbours of the candidate are other entries of the level
        have hexpand : Mirrors graph
            (expandSqlCandidate dimension similarity query level ef candidate.ownerId
              { state with candidates := candidates })
            ((entry.neighbors[level]).foldlM (visitNeighbor similarity graph query level ef)
              { state with candidates := candidates }) := by
          unfold expandSqlCandidate
          refine loadEntry_mirrors hreadable hentry ?_
          rw [hlayer]
          refine Mirrors.foldlM (fun other neighborId hmem => ?_) _
          obtain ⟨hne, hpresent⟩ := hlinks _ entry hentry level _ hlayer neighborId hmem
          rw [howner] at hne
          exact visit_mirrors hreadable hsame hne hpresent other
        refine hexpand.bind fun next hnext => ?_
        refine searchLoop_mirrors hreadable hlinks hsame fuel ?_
        exact list_foldlM_inv (CandidatesPresent graph level)
          (fun _ _ _ _ hstate hvisit => visitNeighbor_candidates hstate hvisit) hpopped hnext

theorem hnswSearchLayerSql_mirrors (hreadable : Readable dimension graph)
    (hlinks : LinksHold graph) (hsame : SameDimension dimension similarity)
    (hentry : PresentOn graph level entryPoint) :
    Mirrors graph (hnswSearchLayerSql dimension similarity query level ef graph.size entryPoint)
      (hnswSearchLayer similarity graph query level ef entryPoint) := by
  unfold hnswSearchLayerSql hnswSearchLayer
  refine (initialize_mirrors hreadable hsame hentry).bind fun state hstate => ?_
  have hpresent := initialize_candidates hentry hstate
  refine (searchLoop_mirrors hreadable hlinks hsame _ hpresent).bind fun final _ => ?_
  exact mirrors_pure _

end Layer

/-! ## 4. The whole search -/

section Search

variable [LinearOrder σ] {graph : VectorCacheGraph ν} {dimension : ν → Nat}
  {similarity : ν → ν → QueryResult σ} {query : ν}

theorem descendSql_mirrors (hreadable : Readable dimension graph) (hlinks : LinksHold graph)
    (hsame : SameDimension dimension similarity) : ∀ (count : Nat) {current : Int},
      PresentOn graph count current →
        Mirrors graph (descendSql dimension similarity query graph.size count current)
          (descend similarity graph query 1 count current)
  | 0, current, _ => mirrors_pure current
  | count + 1, current, h => by
    unfold descendSql descend
    have hhere : PresentOn graph (1 + count) current := by
      rw [Nat.add_comm]
      exact h
    refine (hnswSearchLayerSql_mirrors hreadable hlinks hsame hhere).bind fun result hresult => ?_
    have hoffered := (hnswSearchLayer_offers hhere).of_ok hresult
    exact descendSql_mirrors hreadable hlinks hsame count
      ((hoffered.bestOwner current).lower (Nat.le_add_left _ _))

/-- **The search that loads entries mirrors the search in memory.** -/
theorem hnswSearchSql_mirrors (hreadable : Readable dimension graph) (hlinks : LinksHold graph)
    (hsame : SameDimension dimension similarity) {entryOwnerId : Int} {maxLevel : Nat}
    (hentry : PresentOn graph maxLevel entryOwnerId) (efSearch : Nat) :
    Mirrors graph
      (hnswSearchSql dimension similarity query graph.size entryOwnerId maxLevel efSearch)
      (hnswSearch similarity graph query entryOwnerId maxLevel efSearch) := by
  unfold hnswSearchSql hnswSearch
  refine (descendSql_mirrors hreadable hlinks hsame maxLevel hentry).bind fun current hcurrent => ?_
  refine hnswSearchLayerSql_mirrors hreadable hlinks hsame ?_
  have hstart : PresentOn graph (1 + maxLevel - 1) entryOwnerId := by
    rw [Nat.add_sub_cancel_left]
    exact hentry
  exact (descend_present maxLevel hstart).of_ok hcurrent

end Search

end Lithograph.Query.SemanticIndex
