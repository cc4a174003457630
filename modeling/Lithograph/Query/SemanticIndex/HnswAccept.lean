/-
  File:      Lithograph/Query/SemanticIndex/HnswAccept.lean
  Subject:   What the cache accepts as a graph.

  * **`graphValid_iff`**: a well linked graph is accepted exactly where its entry point reaches
    every entry on level zero.
-/
import Lithograph.Query.SemanticIndex.HnswConnect

namespace Lithograph.Query.SemanticIndex

open Lithograph.Library
open Relation (ReflTransGen)

variable {ν σ : Type}

variable {maximum : Nat}

section Accepted

theorem foldl_max_spec : ∀ (l : List Nat) (a : Nat),
    a ≤ l.foldl max a ∧ (∀ x ∈ l, x ≤ l.foldl max a) ∧ (l.foldl max a = a ∨ l.foldl max a ∈ l)
  | [], a => ⟨le_rfl, fun _ h => absurd h List.not_mem_nil, .inl rfl⟩
  | b :: l, a => by
    obtain ⟨hle, hall, hmem⟩ := foldl_max_spec l (max a b)
    refine ⟨le_trans (le_max_left a b) hle, List.forall_mem_cons.mpr ⟨?_, hall⟩, ?_⟩
    · exact le_trans (le_max_right a b) hle
    · rcases hmem with hsame | hmem
      · rcases le_total a b with hab | hba
        · exact .inr (List.mem_cons.mpr (.inl (hsame.trans (max_eq_right hab))))
        · exact .inl (hsame.trans (max_eq_left hba))
      · exact .inr (.tail _ hmem)

variable {entries : List (VectorCacheEntry ν)}

theorem collectGraph_some (hdistinct : (entries.map (·.ownerId)).Nodup) {ownerId : Int}
    {entry : VectorCacheEntry ν} :
    (collectGraph entries)[ownerId]? = some entry ↔ entry ∈ entries ∧ entry.ownerId = ownerId := by
  have hpairs : (entries.map fun entry => (entry.ownerId, entry)).Pairwise
      fun a b => ¬ compare a.1 b.1 = .eq := by
    refine List.pairwise_map.mpr ((List.pairwise_map.mp hdistinct).imp fun h e => h ?_)
    exact Std.LawfulEqCmp.eq_of_compare e
  have hfound : ∀ entry ∈ entries, (collectGraph entries)[entry.ownerId]? = some entry :=
    fun entry hentry => Std.ExtTreeMap.getElem?_ofList_of_mem Std.ReflCmp.compare_self hpairs
      (List.mem_map_of_mem hentry)
  constructor
  · intro h
    by_cases hmem : ownerId ∈ entries.map (·.ownerId)
    · obtain ⟨other, hother, rfl⟩ := List.mem_map.mp hmem
      rw [hfound other hother] at h
      cases h
      exact ⟨hother, rfl⟩
    · have hnone : (collectGraph entries)[ownerId]? = none := by
        refine Std.ExtTreeMap.getElem?_ofList_of_contains_eq_false ?_
        simpa using hmem
      rw [hnone] at h
      cases h
  · intro h
    rw [← h.2]
    exact hfound entry h.1

theorem size_collectGraph (hdistinct : (entries.map (·.ownerId)).Nodup) :
    (collectGraph entries).size = entries.length := by
  unfold collectGraph
  rw [Std.ExtTreeMap.size_ofList, List.length_map]
  refine List.pairwise_map.mpr ((List.pairwise_map.mp hdistinct).imp fun h e => h ?_)
  exact Std.LawfulEqCmp.eq_of_compare e

/-- The links of level zero lead from one entry to the other. -/
def Reaches (graph : VectorCacheGraph ν) : Int → Int → Prop :=
  ReflTransGen fun a b => b ∈ bottomLinks graph a

variable {graph : VectorCacheGraph ν}

theorem WellLinked.levelZero (h : WellLinked maximum graph)
    {ownerId : Int} (hmem : ownerId ∈ graph) :
    levelZeroNeighbors graph ownerId = some (bottomLinks graph ownerId) ∧
      ∀ v ∈ bottomLinks graph ownerId, v ∈ graph := by
  obtain ⟨entry, hentry⟩ := Option.isSome_iff_exists.mp
    (Std.ExtTreeMap.mem_iff_isSome_getElem?.mp hmem)
  have hlength := h.layers ownerId entry hentry
  cases hneighbors : entry.neighbors with
  | nil =>
    rw [hneighbors] at hlength
    exact absurd hlength (Nat.succ_ne_zero _).symm
  | cons neighbors rest =>
    have hzero : levelZeroNeighbors graph ownerId = some neighbors := by
      rw [levelZeroNeighbors, hentry, Option.bind_some, hneighbors]
      rfl
    have hlinks : bottomLinks graph ownerId = neighbors := by
      rw [bottomLinks, hzero]
      rfl
    rw [hlinks]
    refine ⟨hzero, fun v hv => ?_⟩
    have hfits := h.fits ownerId entry hentry 0 neighbors (by rw [hneighbors]; rfl)
    exact Std.ExtTreeMap.mem_keys.mp (hfits.present v hv).mem_keys

theorem WellLinked.linksValid {maxLevel : Nat} (h : WellLinked maximum graph)
    (hlevels : ∀ (ownerId : Int) (entry : VectorCacheEntry ν), graph[ownerId]? = some entry →
      entry.level ≤ maxLevel) : vectorCacheLinksValid graph maxLevel = true := by
  unfold vectorCacheLinksValid
  rw [List.all_eq_true]
  intro pair hpair
  obtain ⟨ownerId, item⟩ := pair
  have hitem := lookup_of_mem hpair
  refine Bool.and_eq_true_iff.mpr ⟨decide_eq_true (hlevels ownerId item hitem), ?_⟩
  rw [List.all_eq_true]
  intro layer hlayer
  obtain ⟨neighbors, level⟩ := layer
  have hlayer := List.mem_zipIdx_iff_getElem?.mp hlayer
  have hfits := h.fits ownerId item hitem level neighbors hlayer
  rw [List.all_eq_true]
  intro v hv
  obtain ⟨neighbor, hneighbor, hlevel⟩ := hfits.present v hv
  have hne : v ≠ item.ownerId := by
    rw [h.key ownerId item hitem]
    exact hfits.others v hv
  unfold linkValid
  rw [hneighbor]
  simp [hne, hlevel]

theorem persistedMeta_levels : ∀ entry ∈ entries, entry.level ≤ (persistedMeta entries).maxLevel :=
  fun _ hentry => (foldl_max_spec (entries.map (·.level)) 0).2.1 _ (List.mem_map_of_mem hentry)

theorem persistedMeta_point (hsome : entries ≠ []) :
    ∃ point ∈ entries, (persistedMeta entries).entryOwnerId = some point.ownerId ∧
      point.level = (persistedMeta entries).maxLevel ∧
      ∀ entry ∈ entries, entry.level = point.level → point.ownerId ≤ entry.ownerId := by
  have htop : ∃ top ∈ entries, top.level = (persistedMeta entries).maxLevel := by
    rcases (foldl_max_spec (entries.map (·.level)) 0).2.2 with hzero | hmem
    · obtain ⟨first, hfirst⟩ := List.exists_mem_of_ne_nil entries hsome
      have hle : first.level ≤ (entries.map (·.level)).foldl max 0 :=
        persistedMeta_levels first hfirst
      rw [hzero] at hle
      exact ⟨first, hfirst, (Nat.le_zero.mp hle).trans hzero.symm⟩
    · obtain ⟨top, htop, hlevel⟩ := List.mem_map.mp hmem
      exact ⟨top, htop, hlevel⟩
  have hcandidate : ∀ top ∈ entries, top.level = (persistedMeta entries).maxLevel → top.ownerId ∈
      (entries.filter (·.level = (persistedMeta entries).maxLevel)).map (·.ownerId) :=
    fun top htop hlevel => List.mem_map_of_mem (List.mem_filter.mpr ⟨htop, decide_eq_true hlevel⟩)
  cases hmin : (persistedMeta entries).entryOwnerId with
  | none =>
    have hnil : (entries.filter (·.level = (persistedMeta entries).maxLevel)).map (·.ownerId) =
        [] := List.min?_eq_none_iff.mp hmin
    obtain ⟨top, htop, hlevel⟩ := htop
    have hmem := hcandidate top htop hlevel
    rw [hnil] at hmem
    exact absurd hmem List.not_mem_nil
  | some ownerId =>
    obtain ⟨hmem, hleast⟩ := List.min?_eq_some_iff.mp hmin
    obtain ⟨point, hpoint, rfl⟩ := List.mem_map.mp hmem
    obtain ⟨hpoint, htopmost⟩ := List.mem_filter.mp hpoint
    have hlevel := of_decide_eq_true htopmost
    exact ⟨point, hpoint, rfl, hlevel,
      fun entry hentry hsame => hleast _ (hcandidate entry hentry (hsame.trans hlevel))⟩

theorem WellLinked.explored (hlinked : WellLinked maximum graph)
    {root : Int} (hroot : root ∈ graph) :
    ∃ reachable, explore (levelZeroNeighbors graph) (graph.size + 1) [root] [root] =
      some reachable ∧ (reachable.length = graph.size ↔ ∀ v ∈ graph, Reaches graph root v) := by
  have hsucc : ∀ a ∈ graph.keys, ∃ next, levelZeroNeighbors graph a = some next ∧
      ∀ b ∈ next, b ∈ graph.keys := by
    intro a ha
    obtain ⟨hzero, hinside⟩ := hlinked.levelZero (Std.ExtTreeMap.mem_keys.mp ha)
    exact ⟨_, hzero, fun v hv => Std.ExtTreeMap.mem_keys.mpr (hinside v hv)⟩
  have hlinks : Succeeds (levelZeroNeighbors graph) = fun a b => b ∈ bottomLinks graph a := by
    funext a b
    unfold Succeeds bottomLinks
    cases levelZeroNeighbors graph a <;> simp
  obtain ⟨reachable, hexplored, hcount⟩ := explore_reaches hsucc Std.ExtTreeMap.nodup_keys
    (Std.ExtTreeMap.mem_keys.mpr hroot) (Nat.lt_succ_self _)
  rw [Std.ExtTreeMap.length_keys] at hexplored hcount
  rw [hlinks] at hcount
  refine ⟨reachable, hexplored, hcount.trans ?_⟩
  simp only [Std.ExtTreeMap.mem_keys]
  rfl

/-- **A well linked graph is accepted exactly where its entry point reaches every entry.** -/
theorem graphValid_iff (hdistinct : (entries.map (·.ownerId)).Nodup)
    (hlinked : WellLinked maximum (collectGraph entries))
    (hlevels : ∀ entry ∈ entries, entry.level ≤ 32) :
    vectorCacheGraphValid (collectGraph entries) (persistedMeta entries) = true ↔
      ∀ point, (persistedMeta entries).entryOwnerId = some point →
        ∀ v ∈ collectGraph entries, Reaches (collectGraph entries) point v := by
  by_cases hsome : entries = []
  · rw [hsome]
    exact iff_of_true rfl fun point hpoint => by cases hpoint
  obtain ⟨point, hpoint, hmeta, hlevel, _⟩ := persistedMeta_point hsome
  have hfound := (collectGraph_some hdistinct).mpr ⟨hpoint, rfl⟩
  have hsize := size_collectGraph hdistinct
  have hmem : point.ownerId ∈ collectGraph entries :=
    Std.ExtTreeMap.mem_iff_isSome_getElem?.mpr (by rw [hfound]; rfl)
  have hlinks : vectorCacheLinksValid (collectGraph entries) (persistedMeta entries).maxLevel =
      true := hlinked.linksValid fun ownerId entry hentry =>
    persistedMeta_levels entry ((collectGraph_some hdistinct).mp hentry).1
  obtain ⟨reachable, hexplored, hcount⟩ := hlinked.explored hmem
  have hnonempty : (collectGraph entries).isEmpty = false := by
    rw [Std.ExtTreeMap.isEmpty_eq_size_beq_zero, hsize]
    exact beq_eq_false_iff_ne.mpr fun hzero => hsome (List.length_eq_zero_iff.mp hzero)
  have hcapped : ¬ (point.level ≠ (persistedMeta entries).maxLevel ∨
      32 < (persistedMeta entries).maxLevel) := by
    have hpointlevel := hlevels point hpoint
    rw [hlevel] at hpointlevel
    exact fun hor => hor.elim (fun hne => hne hlevel) (Nat.not_lt.mpr hpointlevel)
  have hcount' : ¬ (collectGraph entries).size ≠ (persistedMeta entries).entryCount :=
    not_not.mpr hsize
  unfold vectorCacheGraphValid
  rw [if_neg (by rw [hnonempty]; exact Bool.false_ne_true), hmeta]
  dsimp only
  rw [if_neg hcount', hfound]
  dsimp only
  rw [if_neg hcapped, if_neg (by rw [hlinks]; exact Bool.false_ne_true.symm), hexplored]
  refine beq_iff_eq.trans (hcount.trans ⟨fun h other hother => ?_, fun h => h _ rfl⟩)
  rw [← Option.some.inj hother]
  exact h

end Accepted

end Lithograph.Query.SemanticIndex
