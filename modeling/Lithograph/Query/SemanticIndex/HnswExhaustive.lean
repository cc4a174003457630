/-
  File:      Lithograph/Query/SemanticIndex/HnswExhaustive.lean
  Subject:   What the widening search answers.

  * **`queryVectorCache_exact`**: an exhaustive answer is the ranking of every visible entry, any
    answer holds visible entries once each, and the search over stored rows is that in memory.
-/
import Lithograph.Query.SemanticIndex.HnswLazy
import Lithograph.Query.SemanticIndex.HnswBuild

namespace Lithograph.Query.SemanticIndex

open Lithograph.Library

variable {ν σ : Type}

variable {entryPoint : Int}

/-! ## 1. The items of a search -/

section Items

variable {graph : VectorCacheGraph ν} {similarity : ν → ν → QueryResult σ} {query : ν}
  {level ef : Nat}

/-- The item is an entry with its score. -/
def Scored (similarity : ν → ν → QueryResult σ) (graph : VectorCacheGraph ν) (query : ν)
    (item : VectorQueueItem σ) : Prop :=
  ∃ entry, graph[item.ownerId]? = some entry ∧ similarity entry.vector query = .ok item.score

theorem initialize_scored {state : HnswSearchState σ}
    (h : initializeMemorySearch similarity graph query level entryPoint = .ok state) :
    ∀ item ∈ state.nearest, Scored similarity graph query item := by
  unfold initializeMemorySearch at h
  split at h
  · cases h
    exact fun _ hitem => absurd hitem List.not_mem_nil
  · rename_i entry hentry
    split at h
    · cases h
      exact fun _ hitem => absurd hitem List.not_mem_nil
    · obtain ⟨score, hscore, hresult⟩ := bind_eq_ok.mp h
      cases hresult
      intro item hitem
      rw [List.mem_singleton.mp hitem]
      exact ⟨entry, hentry, hscore⟩

theorem scored_perm {items items' : List (VectorQueueItem σ)}
    (hdistinct : (items.map (·.ownerId)).Nodup)
    (hids : (items.map (·.ownerId)).Perm (items'.map (·.ownerId)))
    (hscored : ∀ item ∈ items, Scored similarity graph query item)
    (hscored' : ∀ item ∈ items', Scored similarity graph query item) : items.Perm items' := by
  have hsame : ∀ a b : VectorQueueItem σ, Scored similarity graph query a →
      Scored similarity graph query b → a.ownerId = b.ownerId → a = b := by
    intro a b ha hb hid
    obtain ⟨entry, hentry, hscore⟩ := ha
    obtain ⟨other, hother, hscore'⟩ := hb
    rw [← hid, hentry] at hother
    cases hother
    rw [hscore] at hscore'
    cases a
    cases hid
    cases hscore'
    rfl
  have hmem : ∀ {l l' : List (VectorQueueItem σ)},
      (∀ item ∈ l, Scored similarity graph query item) →
      (∀ item ∈ l', Scored similarity graph query item) →
      (l.map (·.ownerId)).Perm (l'.map (·.ownerId)) → ∀ item ∈ l, item ∈ l' := by
    intro l l' hl hl' hperm item hitem
    obtain ⟨other, hother, hid⟩ := List.mem_map.mp (hperm.mem_iff.mp (List.mem_map_of_mem hitem))
    rw [← hsame other item (hl' other hother) (hl item hitem) hid]
    exact hother
  refine (List.perm_ext_iff_of_nodup hdistinct.of_map (hids.nodup_iff.mp hdistinct).of_map).mpr ?_
  exact fun item => ⟨hmem hscored hscored' hids item, hmem hscored' hscored hids.symm item⟩

/-- All that was visited is kept. -/
structure Complete (graph : VectorCacheGraph ν) (state : HnswSearchState σ) : Prop where
  distinct : state.visited.Nodup
  within : ∀ v ∈ state.visited, v ∈ graph.keys
  kept : (state.nearest.map (·.ownerId)).Perm state.visited

theorem Complete.length_le {state : HnswSearchState σ} (h : Complete graph state) {v : Int}
    (hv : v ∈ graph.keys) (hnew : v ∉ state.visited) : state.nearest.length < graph.size := by
  have hlength := h.kept.length_eq
  rw [List.length_map] at hlength
  have hsub : (v :: state.visited) ⊆ graph.keys := List.cons_subset.mpr ⟨hv, h.within⟩
  have hcount := ((List.nodup_cons.mpr ⟨hnew, h.distinct⟩).subperm hsub).length_le
  rw [List.length_cons, Std.ExtTreeMap.length_keys] at hcount
  omega

variable [LinearOrder σ]

theorem keep_nearest {state : HnswSearchState σ} {item other : VectorQueueItem σ}
    (h : other ∈ (state.keep item ef).nearest) : other = item ∨ other ∈ state.nearest := by
  unfold HnswSearchState.keep at h
  split at h
  · have hqueue : other ∈ state.nearest.orderedInsert Ranks item := by
      dsimp only [HnswSearchState.enqueue] at h
      split at h
      · exact List.dropLast_subset _ h
      · exact h
    exact List.mem_cons.mp ((List.perm_orderedInsert Ranks item _).mem_iff.mp hqueue)
  · exact .inr h

theorem visitNeighbor_scored {state state' : HnswSearchState σ} {neighborId : Int}
    (h : ∀ item ∈ state.nearest, Scored similarity graph query item)
    (hvisit : visitNeighbor similarity graph query level ef state neighborId = .ok state') :
    ∀ item ∈ state'.nearest, Scored similarity graph query item := by
  unfold visitNeighbor at hvisit
  split at hvisit
  · cases hvisit
    exact h
  · split at hvisit
    · cases hvisit
      exact h
    · rename_i neighbor hneighbor
      split at hvisit
      · cases hvisit
        exact h
      · obtain ⟨score, hscore, hresult⟩ := bind_eq_ok.mp hvisit
        cases hresult
        intro item hitem
        rcases keep_nearest hitem with rfl | hold
        · exact ⟨neighbor, hneighbor, hscore⟩
        · exact h item hold

/-- **What every visit keeps, the loop keeps**, whatever happens to the candidates. -/
theorem searchLoop_keeps {I : HnswSearchState σ → Prop}
    (hpop : ∀ state candidates, I state → I { state with candidates := candidates })
    (hvisit : ∀ state neighborId state', (∃ item ∈ graph.toList, ∃ layer,
        item.2.neighbors[level]? = some layer ∧ neighborId ∈ layer) → I state →
      visitNeighbor similarity graph query level ef state neighborId = .ok state' → I state') :
    ∀ (fuel : Nat) {state final : HnswSearchState σ}, I state →
      searchLoop similarity graph query level ef fuel state = .ok (some final) → I final
  | 0, _, _, _, hloop => by
    unfold searchLoop at hloop
    cases hloop
  | fuel + 1, state, final, h, hloop => by
    unfold searchLoop at hloop
    split at hloop
    · cases hloop
      exact h
    · split at hloop
      · cases hloop
        exact h
      · split at hloop
        · exact searchLoop_keeps hpop hvisit fuel (hpop _ _ h) hloop
        · rename_i neighbors hneighbors
          obtain ⟨entry, hentry, hlayer⟩ := Option.bind_eq_some_iff.mp hneighbors
          obtain ⟨next, hnext, hrest⟩ := bind_eq_ok.mp hloop
          refine searchLoop_keeps hpop hvisit fuel ?_ hrest
          refine list_foldlM_inv I (fun s neighborId s' hmem hs hstep => ?_) (hpop _ _ h) hnext
          exact hvisit s neighborId s'
            ⟨_, mem_of_lookup hentry, neighbors, hlayer, hmem⟩ hs hstep

theorem searchLoop_final {state : HnswSearchState σ} (hentry : PresentOn graph level entryPoint)
    (hstate : initializeMemorySearch similarity graph query level entryPoint = .ok state)
    {final : Option (HnswSearchState σ)} (hef : 1 ≤ ef)
    (hfinal : searchLoop similarity graph query level ef (graph.size + 1) state = .ok final) :
    ∃ last, final = some last := by
  obtain ⟨hsearching, hwork⟩ := (initializeMemorySearch_starts hentry).of_ok hstate
  obtain ⟨last, hlast, _⟩ := (searchLoop_ends hef hsearching hwork).of_ok hfinal
  exact ⟨last, hlast⟩

theorem hnswSearchLayer_scored {result : HnswLayerResult σ}
    (hentry : PresentOn graph level entryPoint)
    (h : hnswSearchLayer similarity graph query level ef entryPoint = .ok result) :
    ∀ item ∈ result.items, Scored similarity graph query item := by
  unfold hnswSearchLayer at h
  obtain ⟨state, hstate, h⟩ := bind_eq_ok.mp h
  obtain ⟨final, hfinal, h⟩ := bind_eq_ok.mp h
  cases h
  obtain ⟨last, rfl⟩ := searchLoop_final hentry hstate (le_max_right ef 1) hfinal
  refine searchLoop_keeps (I := fun s => ∀ item ∈ s.nearest, Scored similarity graph query item)
    (fun _ _ hs => hs) (fun s neighborId s' _ hs hvisit => visitNeighbor_scored hs hvisit) _
    (initialize_scored hstate) hfinal

/-! ## 2. A search that meets every entry -/

theorem keep_all {state : HnswSearchState σ} {item : VectorQueueItem σ}
    (hroom : state.nearest.length < ef) :
    (state.keep item ef).nearest = state.nearest.orderedInsert Ranks item ∧
      (state.keep item ef).visited = state.visited := by
  unfold HnswSearchState.keep
  rw [if_pos (.inl hroom)]
  dsimp only [HnswSearchState.enqueue]
  rw [if_neg]
  · exact ⟨rfl, rfl⟩
  · rw [List.orderedInsert_length]
    omega

theorem visitNeighbor_complete (hef : graph.size ≤ ef) {state state' : HnswSearchState σ}
    {neighborId : Int} (h : Complete graph state) (hpresent : PresentOn graph level neighborId)
    (hvisit : visitNeighbor similarity graph query level ef state neighborId = .ok state') :
    Complete graph state' := by
  obtain ⟨neighbor, hneighbor, hlevel⟩ := id hpresent
  unfold visitNeighbor at hvisit
  split at hvisit
  · cases hvisit
    exact h
  · rename_i hnew
    rw [hneighbor] at hvisit
    dsimp only at hvisit
    rw [if_neg (Nat.not_lt.mpr hlevel)] at hvisit
    obtain ⟨score, _, hresult⟩ := bind_eq_ok.mp hvisit
    cases hresult
    have hroom := lt_of_lt_of_le (h.length_le hpresent.mem_keys hnew) hef
    obtain ⟨hnearest, hvisited⟩ := @keep_all _ _ _
      { state with visited := neighborId :: state.visited } ⟨neighborId, score⟩ hroom
    refine ⟨?_, ?_, ?_⟩
    · rw [hvisited]
      exact List.nodup_cons.mpr ⟨hnew, h.distinct⟩
    · rw [hvisited]
      exact List.forall_mem_cons.mpr ⟨hpresent.mem_keys, h.within⟩
    · rw [hnearest, hvisited]
      have hperm := (List.perm_orderedInsert Ranks (⟨neighborId, score⟩ : VectorQueueItem σ)
        state.nearest).map (·.ownerId)
      exact hperm.trans (h.kept.cons neighborId)

/-- **A search of full width that visited every entry offers all of them.** -/
theorem hnswSearchLayer_complete (hlinks : LinksHold graph) (hef : graph.size ≤ ef)
    {result : HnswLayerResult σ} (hentry : PresentOn graph level entryPoint)
    (h : hnswSearchLayer similarity graph query level ef entryPoint = .ok result)
    (hall : result.visitedCount = graph.size) : (result.items.map (·.ownerId)).Perm graph.keys := by
  unfold hnswSearchLayer at h
  obtain ⟨state, hstate, h⟩ := bind_eq_ok.mp h
  obtain ⟨final, hfinal, h⟩ := bind_eq_ok.mp h
  cases h
  obtain ⟨last, rfl⟩ := searchLoop_final hentry hstate (le_max_right ef 1) hfinal
  have hstart : Complete graph state := by
    obtain ⟨entry, hfound, hlevel⟩ := id hentry
    unfold initializeMemorySearch at hstate
    rw [hfound] at hstate
    dsimp only at hstate
    rw [if_neg (Nat.not_lt.mpr hlevel)] at hstate
    obtain ⟨score, _, hresult⟩ := bind_eq_ok.mp hstate
    cases hresult
    refine ⟨by simp, fun v hv => ?_, .refl _⟩
    rw [List.mem_singleton.mp hv]
    exact hentry.mem_keys
  have hcomplete : Complete graph last := by
    refine searchLoop_keeps (I := Complete graph) (fun _ _ hs => ⟨hs.distinct, hs.within, hs.kept⟩)
      (fun s neighborId s' hlinked hs hvisit => ?_) _ hstart hfinal
    obtain ⟨item, hitem, layer, hlayer, hmem⟩ := hlinked
    obtain ⟨_, hpresent⟩ := hlinks item.1 item.2 (lookup_of_mem hitem) level layer hlayer
      neighborId hmem
    exact visitNeighbor_complete (le_trans hef (le_max_left ef 1)) hs hpresent hvisit
  refine hcomplete.kept.trans ?_
  refine (hcomplete.distinct.subperm hcomplete.within).perm_of_length_le ?_
  rw [Std.ExtTreeMap.length_keys]
  exact le_of_eq hall.symm

end Items

/-! ## 3. Ranked hits -/

section Ranking

variable {η : Type} {entityId : η → Int}
  {hitOf : VectorQueueItem σ → QueryResult (Option (SemanticHit η σ))}

/-- A hit is about the entry of its item. -/
def HitsOwner (entityId : η → Int)
    (hitOf : VectorQueueItem σ → QueryResult (Option (SemanticHit η σ))) : Prop :=
  ∀ item hit, hitOf item = .ok (some hit) → entityId hit.entity = item.ownerId

theorem mapM_perm {ε α β : Type} {f : α → Except ε β} {l l' : List α} (h : l.Perm l') :
    ∀ {r : List β}, l.mapM f = .ok r → ∃ r', l'.mapM f = .ok r' ∧ r.Perm r' := by
  induction h with
  | nil => exact fun hr => ⟨_, hr, .refl _⟩
  | cons a _ ih =>
    intro r hr
    rw [List.mapM_cons] at hr ⊢
    obtain ⟨b, hb, hr⟩ := bind_eq_ok.mp hr
    obtain ⟨bs, hbs, hr⟩ := bind_eq_ok.mp hr
    cases hr
    obtain ⟨bs', hbs', hperm⟩ := ih hbs
    exact ⟨b :: bs', by rw [hb, ok_bind, hbs', ok_bind]; rfl, hperm.cons b⟩
  | swap a b l =>
    intro r hr
    rw [List.mapM_cons, List.mapM_cons] at hr ⊢
    obtain ⟨x, hx, hr⟩ := bind_eq_ok.mp hr
    obtain ⟨rest, hrest, hr⟩ := bind_eq_ok.mp hr
    cases hr
    obtain ⟨y, hy, hrest⟩ := bind_eq_ok.mp hrest
    obtain ⟨zs, hzs, hrest⟩ := bind_eq_ok.mp hrest
    cases hrest
    refine ⟨y :: x :: zs, ?_, .swap _ _ _⟩
    rw [hy, ok_bind, hx, ok_bind, hzs, ok_bind]
    rfl
  | trans _ _ ih ih' =>
    intro r hr
    obtain ⟨r₁, hr₁, hperm₁⟩ := ih hr
    obtain ⟨r₂, hr₂, hperm₂⟩ := ih' hr₁
    exact ⟨r₂, hr₂, hperm₁.trans hperm₂⟩

theorem hits_sublist (howner : HitsOwner entityId hitOf) :
    ∀ {items : List (VectorQueueItem σ)} {r : List (Option (SemanticHit η σ))},
      items.mapM hitOf = .ok r →
      ((r.filterMap id).map fun hit => entityId hit.entity).Sublist (items.map (·.ownerId)) ∧
        ∀ hit ∈ r.filterMap id, ∃ item ∈ items, hitOf item = .ok (some hit)
  | [], r, hr => by
    cases hr
    exact ⟨.slnil, fun _ hhit => absurd hhit List.not_mem_nil⟩
  | item :: items, r, hr => by
    rw [List.mapM_cons] at hr
    obtain ⟨found, hfound, hr⟩ := bind_eq_ok.mp hr
    obtain ⟨rest, hrest, hr⟩ := bind_eq_ok.mp hr
    cases hr
    obtain ⟨hsub, hfrom⟩ := hits_sublist howner hrest
    have hlater : ∀ hit ∈ rest.filterMap id, ∃ other ∈ item :: items,
        hitOf other = .ok (some hit) := by
      intro hit hhit
      obtain ⟨other, hother, hresult⟩ := hfrom hit hhit
      exact ⟨other, .tail _ hother, hresult⟩
    cases found with
    | none => exact ⟨hsub.cons _, hlater⟩
    | some hit =>
      have hhere := howner item hit hfound
      refine ⟨?_, List.forall_mem_cons.mpr ⟨⟨item, .head _, hfound⟩, hlater⟩⟩
      rw [List.map_cons, ← hhere]
      exact hsub.cons_cons _

variable {graph : VectorCacheGraph ν} {similarity : ν → ν → QueryResult σ} {query : ν}

theorem scoreEntries_scored : ∀ {entries : List (Int × VectorCacheEntry ν)},
    (∀ entry ∈ entries, graph[entry.1]? = some entry.2 ∧
      ∃ score, similarity entry.2.vector query = .ok score) →
    ∃ items : List (VectorQueueItem σ),
      (entries.mapM fun entry => do
        let score ← similarity entry.2.vector query
        Except.ok (⟨entry.1, score⟩ : VectorQueueItem σ)) = .ok items ∧
      items.map (·.ownerId) = entries.map (·.1) ∧
      ∀ item ∈ items, Scored similarity graph query item
  | [], _ => ⟨[], rfl, rfl, fun _ hitem => absurd hitem List.not_mem_nil⟩
  | entry :: entries, h => by
    obtain ⟨⟨hentry, score, hscore⟩, hrest⟩ := List.forall_mem_cons.mp h
    obtain ⟨items, hitems, hids, hscored⟩ := scoreEntries_scored hrest
    refine ⟨⟨entry.1, score⟩ :: items, ?_, ?_, ?_⟩
    · rw [List.mapM_cons, hscore, ok_bind, ok_bind, hitems]
      rfl
    · rw [List.map_cons, List.map_cons, hids]
    · exact List.forall_mem_cons.mpr ⟨⟨entry.2, hentry, hscore⟩, hscored⟩

variable [LinearOrder σ]

instance : Std.Total (HitRanks entityId (σ := σ)) where
  total a b := by
    unfold HitRanks
    rcases lt_trichotomy a.score b.score with hlt | heq | hgt
    · exact .inr (.inl hlt)
    · rcases le_total (entityId a.entity) (entityId b.entity) with hle | hle
      · exact .inl (.inr ⟨heq, hle⟩)
      · exact .inr (.inr ⟨heq.symm, hle⟩)
    · exact .inl (.inl hgt)

instance : IsTrans (SemanticHit η σ) (HitRanks entityId) where
  trans a b c hab hbc := by
    rcases hab with hab | ⟨hab, hid⟩
    · rcases hbc with hbc | ⟨hbc, _⟩
      · exact .inl (lt_trans hbc hab)
      · exact .inl (hbc ▸ hab)
    · rcases hbc with hbc | ⟨hbc, hid'⟩
      · exact .inl (hab.symm ▸ hbc)
      · exact .inr ⟨hab.trans hbc, le_trans hid hid'⟩

/-- **The ranking does not depend on the order of the items.** -/
theorem rankedHits_perm (howner : HitsOwner entityId hitOf)
    {items items' : List (VectorQueueItem σ)} (hperm : items.Perm items')
    (hdistinct : (items.map (·.ownerId)).Nodup)
    {hits : List (SemanticHit η σ)} (h : rankedHits entityId hitOf items = .ok hits) :
    rankedHits entityId hitOf items' = .ok hits := by
  unfold rankedHits at h ⊢
  obtain ⟨found, hfound, h⟩ := bind_eq_ok.mp h
  cases h
  obtain ⟨found', hfound', hsame⟩ := mapM_perm hperm hfound
  rw [hfound', ok_bind]
  have hids : ((found.filterMap id).map fun hit => entityId hit.entity).Nodup :=
    hdistinct.sublist (hits_sublist howner hfound).1
  have hinj := List.inj_on_of_nodup_map hids
  have hfiltered := hsame.filterMap id
  have hsorted := List.perm_insertionSort (HitRanks entityId) (found.filterMap id)
  have hsorted' := List.perm_insertionSort (HitRanks entityId) (found'.filterMap id)
  refine congrArg Except.ok (List.Perm.eq_of_pairwise (fun a b ha hb hab hba => ?_)
    (List.pairwise_insertionSort _ _) (List.pairwise_insertionSort _ _)
    ((hsorted'.trans hfiltered.symm).trans hsorted.symm))
  have ha := hfiltered.symm.mem_iff.mp (hsorted'.mem_iff.mp ha)
  have hb := hsorted.mem_iff.mp hb
  refine hinj ha hb ?_
  -- ranked both ways, two hits have one score and one id
  rcases hab with hab | ⟨heq, hle⟩
  · rcases hba with hba | ⟨heq', _⟩
    · exact absurd hab (lt_asymm hba)
    · exact absurd heq' (ne_of_lt hab)
  · rcases hba with hba | ⟨_, hle'⟩
    · exact absurd heq (ne_of_lt hba)
    · exact le_antisymm hle hle'

/-- **Every entry scored, filtered and ranked**: what an exact search answers. -/
def bruteForce (entityId : η → Int) (similarity : ν → ν → QueryResult σ)
    (hitOf : VectorQueueItem σ → QueryResult (Option (SemanticHit η σ)))
    (graph : VectorCacheGraph ν) (query : ν) : QueryResult (List (SemanticHit η σ)) := do
  let items ← graph.toList.mapM fun entry => do
    let score ← similarity entry.2.vector query
    .ok ⟨entry.1, score⟩
  rankedHits entityId hitOf items

/-- **Items of all entries are answered as brute force does.** -/
theorem bruteForce_eq (howner : HitsOwner entityId hitOf) {items : List (VectorQueueItem σ)}
    (hall : (items.map (·.ownerId)).Perm graph.keys)
    (hscored : ∀ item ∈ items, Scored similarity graph query item)
    {hits : List (SemanticHit η σ)} (h : rankedHits entityId hitOf items = .ok hits) :
    bruteForce entityId similarity hitOf graph query = .ok hits := by
  have hentries : ∀ entry ∈ graph.toList, graph[entry.1]? = some entry.2 ∧
      ∃ score, similarity entry.2.vector query = .ok score := by
    intro entry hentry
    have hfound := lookup_of_mem (k := entry.1) (v := entry.2) hentry
    have hkey : entry.1 ∈ graph.keys := by
      rw [← Std.ExtTreeMap.map_fst_toList_eq_keys]
      exact List.mem_map_of_mem hentry
    obtain ⟨item, hmem, hid⟩ := List.mem_map.mp (hall.mem_iff.mpr hkey)
    obtain ⟨other, hother, hscore⟩ := hscored item hmem
    rw [hid, hfound] at hother
    cases hother
    exact ⟨hfound, item.score, hscore⟩
  obtain ⟨all, hmapped, hids, hscored'⟩ := scoreEntries_scored hentries
  rw [Std.ExtTreeMap.map_fst_toList_eq_keys] at hids
  have hdistinct : (items.map (·.ownerId)).Nodup :=
    hall.nodup_iff.mpr Std.ExtTreeMap.nodup_keys
  unfold bruteForce
  rw [hmapped, ok_bind]
  exact rankedHits_perm howner (scored_perm hdistinct (hids ▸ hall) hscored hscored') hdistinct h

end Ranking

/-! ## 4. The widening -/

section Widening

variable {η : Type} [LinearOrder σ] {entityId : η → Int} {dimension : ν → Nat}
  {similarity : ν → ν → QueryResult σ} {query : ν}
  {hitOf : VectorQueueItem σ → QueryResult (Option (SemanticHit η σ))}
  {graph : VectorCacheGraph ν} {entryOwnerId : Int} {maxLevel entryCount desired : Nat}

/-- The search that an answer was taken from. -/
structure AnsweredBy (entityId : η → Int) (similarity : ν → ν → QueryResult σ)
    (hitOf : VectorQueueItem σ → QueryResult (Option (SemanticHit η σ)))
    (graph : VectorCacheGraph ν) (query : ν) (entryOwnerId : Int) (maxLevel entryCount : Nat)
    (result : VectorCandidateResult η σ) : Prop where
  search : ∃ efSearch layer,
    hnswSearch similarity graph query entryOwnerId maxLevel efSearch = .ok layer ∧
    rankedHits entityId hitOf layer.items = .ok result.hits ∧
    result.exhaustive = (decide (entryCount ≤ efSearch) && layer.visitedCount == entryCount)

/-- **The widening ends, with an answer of one search in memory.** -/
theorem widenSearch_ends (hreadable : Readable dimension graph) (hlinks : LinksHold graph)
    (hsame : SameDimension dimension similarity) (hentry : PresentOn graph maxLevel entryOwnerId) :
    ∀ {fuel efSearch : Nat} {cache : SqlVectorCache ν}, Coherent graph cache →
      efSearch ≤ entryCount → entryCount - efSearch < fuel →
      (∃ error, widenSearch entityId dimension similarity query hitOf graph.size entryOwnerId
          maxLevel entryCount desired fuel efSearch cache = OptionT.mk (.error error)) ∨
      widenSearch entityId dimension similarity query hitOf graph.size entryOwnerId
          maxLevel entryCount desired fuel efSearch cache = OptionT.mk (.ok none) ∨
      ∃ result cache', widenSearch entityId dimension similarity query hitOf graph.size
          entryOwnerId maxLevel entryCount desired fuel efSearch cache =
            OptionT.mk (.ok (some (some result, cache'))) ∧
          AnsweredBy entityId similarity hitOf graph query entryOwnerId maxLevel entryCount result
  | 0, _, _, _, _, hfuel => absurd hfuel (Nat.not_lt_zero _)
  | fuel + 1, efSearch, cache, hcache, hle, hfuel => by
    unfold widenSearch
    rcases hnswSearchSql_mirrors hreadable hlinks hsame hentry efSearch cache hcache with
      ⟨layer, cache₁, hlayer, hcache₁, hlazy⟩ | ⟨error, _, hlazy | hlazy⟩
    · rw [lazy_bind_some hlazy]
      cases hhits : rankedHits entityId hitOf layer.items with
      | error error =>
        exact .inl ⟨error, rfl⟩
      | ok hits =>
        have hdone : (directly (.ok hits) : LazySearch ν (List (SemanticHit η σ))) cache₁ =
          OptionT.mk (.ok (some (hits, cache₁))) := rfl
        rw [lazy_bind_some hdone]
        split
        · exact .inr (.inr ⟨_, cache₁, rfl, ⟨efSearch, layer, hlayer, hhits, rfl⟩⟩)
        · split
          · exact .inr (.inl rfl)
          · -- the next width is greater, and at most the number of entries
            exact widenSearch_ends hreadable hlinks hsame hentry hcache₁ (min_le_right _ _)
              (by omega)
    · rw [lazy_bind_error hlazy]
      exact .inl ⟨error, rfl⟩
    · rw [lazy_bind_none hlazy]
      exact .inr (.inl rfl)

theorem hnswSearch_offers (hentry : PresentOn graph maxLevel entryOwnerId) {efSearch : Nat}
    {layer : HnswLayerResult σ}
    (h : hnswSearch similarity graph query entryOwnerId maxLevel efSearch = .ok layer) :
    (layer.items.map (·.ownerId)).Nodup ∧
      (∀ item ∈ layer.items, Scored similarity graph query item) ∧
      (LinksHold graph → graph.size ≤ efSearch → layer.visitedCount = graph.size →
        (layer.items.map (·.ownerId)).Perm graph.keys) := by
  unfold hnswSearch at h
  obtain ⟨current, hcurrent, hlayer⟩ := bind_eq_ok.mp h
  have hstart : PresentOn graph (1 + maxLevel - 1) entryOwnerId := by
    rw [Nat.add_sub_cancel_left]
    exact hentry
  have hpresent : PresentOn graph (1 - 1) current :=
    (descend_present maxLevel hstart).of_ok hcurrent
  exact ⟨((hnswSearchLayer_offers hpresent).of_ok hlayer).distinct,
    hnswSearchLayer_scored hpresent hlayer,
    fun hlinks hef hall => hnswSearchLayer_complete hlinks (le_trans hef (le_max_left _ _))
      hpresent hlayer hall⟩

/-- What an answer is: hits about visible entries, each entry once, and all of them in order where
    the answer is exhaustive. -/
structure Exact (entityId : η → Int) (similarity : ν → ν → QueryResult σ)
    (hitOf : VectorQueueItem σ → QueryResult (Option (SemanticHit η σ)))
    (graph : VectorCacheGraph ν) (query : ν) (result : VectorCandidateResult η σ) : Prop where
  complete : result.exhaustive = true →
    bruteForce entityId similarity hitOf graph query = .ok result.hits
  once : (result.hits.map fun hit => entityId hit.entity).Nodup
  visible : ∀ hit ∈ result.hits, ∃ item, Scored similarity graph query item ∧
    hitOf item = .ok (some hit)

theorem AnsweredBy.exact {result : VectorCandidateResult η σ} (hlinks : LinksHold graph)
    (howner : HitsOwner entityId hitOf) (hentry : PresentOn graph maxLevel entryOwnerId)
    (h : AnsweredBy entityId similarity hitOf graph query entryOwnerId maxLevel graph.size result) :
    Exact entityId similarity hitOf graph query result := by
  obtain ⟨efSearch, layer, hlayer, hhits, hexhaustive⟩ := h.search
  obtain ⟨hdistinct, hscored, hall⟩ := hnswSearch_offers hentry hlayer
  refine ⟨fun hyes => ?_, ?_, ?_⟩
  · rw [hexhaustive] at hyes
    obtain ⟨hef, hcount⟩ := Bool.and_eq_true_iff.mp hyes
    exact bruteForce_eq howner (hall hlinks (of_decide_eq_true hef) (beq_iff_eq.mp hcount)) hscored
      hhits
  · unfold rankedHits at hhits
    obtain ⟨found, hfound, hresult⟩ := bind_eq_ok.mp hhits
    rw [← Except.ok.inj hresult]
    have hsorted := List.perm_insertionSort (HitRanks entityId) (found.filterMap id)
    exact (hsorted.map _).nodup_iff.mpr (hdistinct.sublist (hits_sublist howner hfound).1)
  · unfold rankedHits at hhits
    obtain ⟨found, hfound, hresult⟩ := bind_eq_ok.mp hhits
    rw [← Except.ok.inj hresult]
    intro hit hhit
    have hfrom := (List.perm_insertionSort (HitRanks entityId) _).mem_iff.mp hhit
    obtain ⟨item, hitem, hof⟩ := (hits_sublist howner hfound).2 hit hfrom
    exact ⟨item, hscored item hitem, hof⟩

end Widening

/-! ## 5. The query -/

section Query

variable {η : Type} [LinearOrder σ]

theorem valid_entry {graph : VectorCacheGraph ν} {cacheMeta : VectorCacheMeta}
    (h : vectorCacheGraphValid graph cacheMeta = true) (hsome : graph.isEmpty = false) :
    graph.size = cacheMeta.entryCount ∧ LinksHold graph ∧ ∀ entryOwnerId,
      cacheMeta.entryOwnerId = some entryOwnerId →
        PresentOn graph cacheMeta.maxLevel entryOwnerId := by
  unfold vectorCacheGraphValid at h
  rw [hsome, if_neg Bool.false_ne_true] at h
  cases howner : cacheMeta.entryOwnerId with
  | none =>
    rw [howner] at h
    cases h
  | some entryOwnerId =>
    rw [howner] at h
    dsimp only at h
    split at h
    · cases h
    · rename_i hsize
      split at h
      · cases h
      · rename_i entry hentry
        split at h
        · cases h
        · rename_i hlevel
          split at h
          · cases h
          · rename_i hlinks
            refine ⟨of_not_not hsize, linksHold_of_valid (Bool.not_eq_false _ |>.mp hlinks),
              fun other hother => ?_⟩
            cases hother
            exact ⟨entry, hentry, le_of_eq (of_not_not fun hne => hlevel (.inl fun heq =>
              hne heq.symm))⟩

theorem openSqlVectorCache_ends {graph : VectorCacheGraph ν} {cacheMeta : VectorCacheMeta}
    {dimension : ν → Nat} {query : ν} (hreadable : Readable dimension graph)
    (hpoint : ∀ entryOwnerId, cacheMeta.entryOwnerId = some entryOwnerId →
      PresentOn graph cacheMeta.maxLevel entryOwnerId)
    {cache : SqlVectorCache ν} (hcache : Coherent graph cache) :
    openSqlVectorCache dimension query cacheMeta cache = OptionT.mk (.ok none) ∨
    ∃ entryOwnerId cache', cacheMeta.entryOwnerId = some entryOwnerId ∧ Coherent graph cache' ∧
      openSqlVectorCache dimension query cacheMeta cache =
        OptionT.mk (.ok (some (entryOwnerId, cache'))) := by
  unfold openSqlVectorCache
  split
  · exact .inl rfl
  · cases hsome : cacheMeta.entryOwnerId with
    | none => exact .inl rfl
    | some entryOwnerId =>
      obtain ⟨entry, hentry, _⟩ := hpoint entryOwnerId hsome
      obtain ⟨cache', hcache', hload⟩ := loadEntry_some hreadable hentry hcache
      dsimp only
      rw [lazy_bind_some hload]
      split
      · exact .inl rfl
      · exact .inr ⟨entryOwnerId, cache', rfl, hcache', rfl⟩

/-- **The widening search over a valid graph**: it ends; its answers are exact; and the search that
    loads entries one by one returns what the search in memory returns. -/
theorem queryVectorCache_exact (entityId : η → Int) (dimension : ν → Nat)
    (similarity : ν → ν → QueryResult σ) (query : ν)
    (hitOf : VectorQueueItem σ → QueryResult (Option (SemanticHit η σ)))
    (graph : VectorCacheGraph ν) (cacheMeta : VectorCacheMeta) (candidateLimit : Nat)
    (hvalid : vectorCacheGraphValid graph cacheMeta = true) (hreadable : Readable dimension graph)
    (hsame : SameDimension dimension similarity) (howner : HitsOwner entityId hitOf) :
    ((∃ error, queryVectorCache entityId dimension similarity query hitOf graph cacheMeta
        candidateLimit ⟨graph, ∅⟩ = OptionT.mk (.error error)) ∨
      queryVectorCache entityId dimension similarity query hitOf graph cacheMeta candidateLimit
        ⟨graph, ∅⟩ = OptionT.mk (.ok none) ∨
      ∃ result cache', queryVectorCache entityId dimension similarity query hitOf graph cacheMeta
        candidateLimit ⟨graph, ∅⟩ = OptionT.mk (.ok (some (some result, cache'))) ∧
        Exact entityId similarity hitOf graph query result) ∧
    ∀ entryOwnerId, cacheMeta.entryOwnerId = some entryOwnerId → ∀ efSearch layer,
      (∃ cache', hnswSearchSql dimension similarity query graph.size entryOwnerId
        cacheMeta.maxLevel efSearch ⟨graph, ∅⟩ = OptionT.mk (.ok (some (layer, cache')))) ↔
      hnswSearch similarity graph query entryOwnerId cacheMeta.maxLevel efSearch = .ok layer := by
  have hstart : Coherent graph ⟨graph, ∅⟩ := by
    refine ⟨rfl, fun ownerId entry hentry => ?_⟩
    cases hentry
  cases hempty : graph.isEmpty with
  | true =>
    have hmeta := hvalid
    unfold vectorCacheGraphValid at hmeta
    rw [if_pos hempty] at hmeta
    obtain ⟨hcounts, hlevel⟩ := Bool.and_eq_true_iff.mp hmeta
    obtain ⟨hcount, hnone⟩ := Bool.and_eq_true_iff.mp hcounts
    refine ⟨.inr (.inr ⟨⟨[], true⟩, ⟨graph, ∅⟩, ?_, fun _ => ?_, List.nodup_nil, ?_⟩), ?_⟩
    · unfold queryVectorCache
      rw [if_pos (beq_iff_eq.mp hcount), hnone, hlevel, hempty]
      rfl
    · unfold bruteForce
      rw [Std.ExtTreeMap.isEmpty_iff.mp hempty]
      rfl
    · exact fun _ hhit => absurd hhit List.not_mem_nil
    · intro entryOwnerId hsome
      rw [hsome] at hnone
      cases hnone
  | false =>
    obtain ⟨hsize, hlinks, hpoint⟩ := valid_entry hvalid hempty
    refine ⟨?_, fun entryOwnerId hsome efSearch layer =>
      (hnswSearchSql_mirrors hreadable hlinks hsame (hpoint entryOwnerId hsome)
        efSearch).some_iff hstart⟩
    have hpositive : cacheMeta.entryCount ≠ 0 := by
      intro hzero
      rw [Std.ExtTreeMap.isEmpty_eq_size_beq_zero, hsize, hzero] at hempty
      cases hempty
    unfold queryVectorCache
    rw [if_neg hpositive]
    -- the entry point is loaded first, and kept
    have hopen := @openSqlVectorCache_ends ν graph cacheMeta dimension query hreadable hpoint _
      hstart
    rcases hopen with hgone | ⟨entryOwnerId, cache, hsome, hcache, hopened⟩
    · rw [lazy_bind_none hgone]
      exact .inr (.inl rfl)
    · rw [lazy_bind_some hopened]
      have hwiden := @widenSearch_ends ν σ η _ entityId dimension similarity query hitOf graph
        entryOwnerId cacheMeta.maxLevel cacheMeta.entryCount
        (min (max candidateLimit 1) cacheMeta.entryCount) hreadable hlinks hsame
        (hpoint entryOwnerId hsome) (cacheMeta.entryCount + 1)
        (min (max candidateLimit 1) cacheMeta.entryCount) cache hcache (min_le_right _ _)
        (Nat.lt_succ_of_le (Nat.sub_le _ _))
      refine hwiden.imp id (Or.imp id fun hanswer => ?_)
      obtain ⟨result, cache', hresult, hanswered⟩ := hanswer
      rw [← hsize] at hanswered
      exact ⟨result, cache', hresult, hanswered.exact hlinks howner (hpoint entryOwnerId hsome)⟩

/-- Four entries in a line of links, of which the owners above two are visible. -/
def sampleRows : List (VectorCacheEntry Int) :=
  [⟨1, 1, 0, [[2]]⟩, ⟨2, 2, 0, [[1, 3]]⟩, ⟨3, 3, 0, [[2, 4]]⟩, ⟨4, 4, 0, [[3]]⟩]

def sampleHit : VectorQueueItem Int → QueryResult (Option (SemanticHit Int Int)) :=
  managedHit fun ownerId => .ok (if 2 < ownerId then some ownerId else none)

theorem sampleHit_owner : HitsOwner id sampleHit := by
  intro item hit h
  unfold sampleHit managedHit at h
  rw [ok_bind] at h
  split at h
  · cases h
    rfl
  · cases h

/-- The entry nearest to the query comes first, and the other visible one follows. -/
theorem queryVectorCache_exact_sample :
    ((∃ error, queryVectorCache id (fun _ => 1) lineSimilarity 1 sampleHit
        (collectGraph sampleRows) (persistedMeta sampleRows) 1 ⟨collectGraph sampleRows, ∅⟩ =
          OptionT.mk (.error error)) ∨
      queryVectorCache id (fun _ => 1) lineSimilarity 1 sampleHit (collectGraph sampleRows)
        (persistedMeta sampleRows) 1 ⟨collectGraph sampleRows, ∅⟩ = OptionT.mk (.ok none) ∨
      ∃ result cache', queryVectorCache id (fun _ => 1) lineSimilarity 1 sampleHit
        (collectGraph sampleRows) (persistedMeta sampleRows) 1 ⟨collectGraph sampleRows, ∅⟩ =
          OptionT.mk (.ok (some (some result, cache'))) ∧
        Exact id lineSimilarity sampleHit (collectGraph sampleRows) 1 result) ∧
    ∀ entryOwnerId, (persistedMeta sampleRows).entryOwnerId = some entryOwnerId → ∀ efSearch layer,
      (∃ cache', hnswSearchSql (fun _ => 1) lineSimilarity 1 (collectGraph sampleRows).size
        entryOwnerId (persistedMeta sampleRows).maxLevel efSearch ⟨collectGraph sampleRows, ∅⟩ =
          OptionT.mk (.ok (some (layer, cache')))) ↔
      hnswSearch lineSimilarity (collectGraph sampleRows) 1 entryOwnerId
        (persistedMeta sampleRows).maxLevel efSearch = .ok layer := by
  refine queryVectorCache_exact id (fun _ => 1) lineSimilarity 1 sampleHit
    (collectGraph sampleRows) (persistedMeta sampleRows) 1 (by decide +kernel) ?_
    (fun _ _ hne => absurd rfl hne) sampleHit_owner
  intro ownerId entry hentry
  have hdistinct : (sampleRows.map (·.ownerId)).Nodup := by decide
  obtain ⟨hmem, rfl⟩ := (collectGraph_some hdistinct).mp hentry
  have hrows : ∀ row ∈ sampleRows, decodeCacheRow (fun _ => 1) row.ownerId row = some row := by
    decide
  exact hrows entry hmem

/-- What an answer shows: its hits, and whether it is exhaustive. -/
def answerOf (cache : SqlVectorCache ν)
    (search : LazySearch ν (Option (VectorCandidateResult Int σ))) : Option (List Int × Bool) :=
  match search cache with
  | .ok (some (some result, _)) => some (result.hits.map (·.entity), result.exhaustive)
  | _ => none

/-- **An exhaustive answer is not cut at the limit**: with a limit of one, the two visible entries
    of four are found by the widest search, and both are returned. -/
theorem queryVectorCache_uncut :
    answerOf ⟨collectGraph sampleRows, ∅⟩ (queryVectorCache id (fun _ => 1) lineSimilarity 1
      sampleHit (collectGraph sampleRows) (persistedMeta sampleRows) 1) = some ([3, 4], true) ∧
    (match bruteForce id lineSimilarity sampleHit (collectGraph sampleRows) 1 with
      | .ok hits => (hits.take 1).map (·.entity)
      | .error _ => []) = [3] := by
  constructor
  · decide +kernel
  · decide +kernel

end Query

end Lithograph.Query.SemanticIndex
