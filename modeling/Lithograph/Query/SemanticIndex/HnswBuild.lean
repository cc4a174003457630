/-
  File:      Lithograph/Query/SemanticIndex/HnswBuild.lean
  Subject:   What the build of a graph ends with, and when the cache accepts it.

  * **`Built.step`**: an insertion keeps the links, the bounds and the entry point.
  * **`buildHnswGraph_accepted`**: a run ends with a graph that is accepted exactly where the last
    insertion joins.
-/
import Lithograph.Query.SemanticIndex.HnswRing

namespace Lithograph.Query.SemanticIndex

open Lithograph.Library
open Relation (ReflTransGen)

variable {ν σ : Type}

/-! ## 1. A new node in a directed graph -/

/-- The links around a new node: between the old nodes those that last, from it to `S`, and to it
    from some others. -/
structure NewNode (V S : Int → Prop) (old lasting new : Int → Int → Prop) (x : Int) : Prop where
  fresh : ¬ V x
  inside : ∀ a, S a → V a
  closed : ∀ a b, old a b → V a ∧ V b
  lasts : ∀ a b, lasting a b → old a b
  between : ∀ a b, a ≠ x → b ≠ x → (new a b ↔ lasting a b)
  leaving : ∀ b, new x b ↔ S b

section Detour

variable {V S : Int → Prop} {old lasting new : Int → Int → Prop} {x e root a b : Int}

theorem NewNode.ne (h : NewNode V S old lasting new x) (ha : V a) : a ≠ x :=
  fun heq => h.fresh (heq ▸ ha)

theorem NewNode.lifts (h : NewNode V S old lasting new x) (hpath : ReflTransGen lasting a b) :
    ReflTransGen new a b :=
  ReflTransGen.mono (fun a b hlink =>
    have hold := h.closed a b (h.lasts a b hlink)
    (h.between a b (h.ne hold.1) (h.ne hold.2)).mpr hlink) _ _ hpath

/-- What the new node reaches. -/
def Behind (S : Int → Prop) (lasting : Int → Int → Prop) (x w : Int) : Prop :=
  w = x ∨ ∃ s, S s ∧ ReflTransGen lasting s w

theorem NewNode.behind_link (h : NewNode V S old lasting new x) (ha : Behind S lasting x a)
    (hlink : new a b) : Behind S lasting x b := by
  by_cases hb : b = x
  · exact .inl hb
  rcases ha with rfl | ⟨s, hs, hpath⟩
  · exact .inr ⟨b, (h.leaving b).mp hlink, .refl⟩
  · have ha : a ≠ x := by
      rintro rfl
      cases hpath with
      | refl => exact h.fresh (h.inside _ hs)
      | tail _ hlast => exact h.fresh (h.closed _ _ (h.lasts _ _ hlast)).2
    exact .inr ⟨s, hs, hpath.tail ((h.between a b ha hb).mp hlink)⟩

/-- A node that was not reached from `e`, or that a link was lost to, is reached without the lost
    links from `e` or behind the new node. -/
def Rejoined (V S : Int → Prop) (old lasting : Int → Int → Prop) (e : Int) : Prop :=
  ∀ v, V v → ¬ ReflTransGen old e v ∨ (∃ q, old q v ∧ ¬ lasting q v) →
    ∃ s, (s = e ∨ S s) ∧ ReflTransGen lasting s v

theorem NewNode.reached_all (h : NewNode V S old lasting new x) (hx : ReflTransGen new root x)
    (he : ReflTransGen new root e) (hrest : Rejoined V S old lasting e) :
    ∀ v, v = x ∨ V v → ReflTransGen new root v := by
  have hfrom : ∀ s v, s = e ∨ S s → ReflTransGen lasting s v → ReflTransGen new root v := by
    rintro s v (rfl | hs) hpath
    · exact he.trans (h.lifts hpath)
    · exact (hx.tail ((h.leaving s).mpr hs)).trans (h.lifts hpath)
  rintro v (rfl | hv)
  · exact hx
  by_cases hold : ReflTransGen old e v
  · -- along the old path, each lost link has its detour
    induction hold with
    | refl => exact he
    | @tail a b _ hlink ih =>
      obtain ⟨ha, hb⟩ := h.closed a b hlink
      by_cases hlast : lasting a b
      · exact (ih ha).tail ((h.between a b (h.ne ha) (h.ne hb)).mpr hlast)
      · obtain ⟨s, hs, hpath⟩ := hrest b hb (.inr ⟨a, hlink, hlast⟩)
        exact hfrom s b hs hpath
  · obtain ⟨s, hs, hpath⟩ := hrest v hv (.inl hold)
    exact hfrom s v hs hpath

/-- **An old node reaches all exactly where it reaches the new node, and the others are
    rejoined.** -/
theorem NewNode.reached_old (h : NewNode V S old lasting new x) (he : V e) :
    (∀ v, v = x ∨ V v → ReflTransGen new e v) ↔
      (∃ q, new q x ∧ ReflTransGen lasting e q) ∧ Rejoined V S old lasting e := by
  constructor
  · intro hall
    -- a path comes by the new node, or all its links are old
    have hpaths : ∀ w, ReflTransGen new e w → (w ≠ x ∧ ReflTransGen lasting e w) ∨
        (∃ q, new q x ∧ ReflTransGen lasting e q) ∧ Behind S lasting x w := by
      intro w hw
      induction hw with
      | refl => exact .inl ⟨h.ne he, .refl⟩
      | @tail w w' _ hlink ih =>
        rcases ih with ⟨hne, hpath⟩ | ⟨hjoined, hbehind⟩
        · by_cases hx : w' = x
          · exact .inr ⟨⟨w, hx ▸ hlink, hpath⟩, .inl hx⟩
          · exact .inl ⟨hx, hpath.tail ((h.between w w' hne hx).mp hlink)⟩
        · exact .inr ⟨hjoined, h.behind_link hbehind hlink⟩
    refine ⟨?_, fun v hv _ => ?_⟩
    · rcases hpaths x (hall x (.inl rfl)) with ⟨hne, _⟩ | ⟨hjoined, _⟩
      · exact absurd rfl hne
      · exact hjoined
    · rcases hpaths v (hall v (.inr hv)) with ⟨_, hpath⟩ | ⟨_, rfl | ⟨s, hs, hpath⟩⟩
      · exact ⟨e, .inl rfl, hpath⟩
      · exact absurd hv h.fresh
      · exact ⟨s, .inr hs, hpath⟩
  · rintro ⟨⟨q, hq, hpath⟩, hrest⟩
    exact h.reached_all ((h.lifts hpath).tail hq) .refl hrest

/-- **The new node reaches all exactly where it reaches an old one, and the others are
    rejoined.** -/
theorem NewNode.reached_new (h : NewNode V S old lasting new x) (he : V e) :
    (∀ v, v = x ∨ V v → ReflTransGen new x v) ↔
      (∃ s, S s ∧ ReflTransGen lasting s e) ∧ Rejoined V S old lasting e := by
  constructor
  · intro hall
    have hbehind : ∀ w, ReflTransGen new x w → Behind S lasting x w := by
      intro w hw
      induction hw with
      | refl => exact .inl rfl
      | tail _ hlink ih => exact h.behind_link ih hlink
    have hold : ∀ v, V v → ∃ s, S s ∧ ReflTransGen lasting s v :=
      fun v hv => (hbehind v (hall v (.inr hv))).resolve_left (h.ne hv)
    refine ⟨hold e he, fun v hv _ => ?_⟩
    obtain ⟨s, hs, hpath⟩ := hold v hv
    exact ⟨s, .inr hs, hpath⟩
  · rintro ⟨⟨s, hs, hpath⟩, hrest⟩
    exact h.reached_all .refl ((ReflTransGen.single ((h.leaving s).mpr hs)).trans (h.lifts hpath))
      hrest

end Detour

/-! ## 2. Insertions that join -/

/-- The graph with the new entry in it, linked to what was selected and not yet linked from it. -/
def placedGraph (build : HnswBuild ν) (entry : VectorCacheEntry ν) (selected : List (List Int)) :
    VectorCacheGraph ν :=
  build.graph.insert entry.ownerId { entry with neighbors := selected }

section Joining

variable [LinearOrder σ] (similarity : ν → ν → QueryResult σ) (maximum ef : Nat)
  (build : HnswBuild ν) (entry : VectorCacheEntry ν)

/-- A link of level zero that pruning leaves when the new entry is connected. -/
def Lasts (selected : List (List Int)) (a b : Int) : Prop :=
  b ∈ bottomLinks build.graph a ∧
    b ∈ keptLinks similarity maximum (placedGraph build entry selected) entry.ownerId a

/-- **Over the old links that last, the new entry and the entry point are linked, and an entry that
    was lost or loses a link is reached** from the entry point or a selected neighbour. An entry
    above the entry point takes its place. -/
structure Joins (current : Int) (selected : List (List Int)) : Prop where
  linked :
    if build.maxLevel < entry.level then
      ∃ s ∈ bottomLinks (placedGraph build entry selected) entry.ownerId,
        ReflTransGen (Lasts similarity maximum build entry selected) s current
    else ∃ q, entry.ownerId ∈
        keptLinks similarity maximum (placedGraph build entry selected) entry.ownerId q ∧
      ReflTransGen (Lasts similarity maximum build entry selected) current q
  rejoined : Rejoined (· ∈ build.graph)
    (· ∈ bottomLinks (placedGraph build entry selected) entry.ownerId)
    (fun a b => b ∈ bottomLinks build.graph a) (Lasts similarity maximum build entry selected)
    current

/-- The insertion of the entry joins. The first entry has nothing to join. -/
def InsertionJoins : Prop :=
  ∀ current selected, build.entryOwnerId = some current →
    selectHnswNeighborsForNewEntry similarity maximum ef build.graph current build.maxLevel entry =
      .ok selected → Joins similarity maximum build entry current selected

/-- The last insertion of a run joins, from the state that the others lead to. -/
def LastJoins (entries : List (VectorCacheEntry ν)) : Prop :=
  ∀ front last build, entries = front ++ [last] →
    front.foldlM (insertEntry similarity maximum ef) (⟨∅, none, 0⟩ : HnswBuild ν) = .ok build →
      InsertionJoins similarity maximum ef build last

end Joining

/-! ## 3. What an insertion keeps -/

/-- The entry point: the first owner on the top level. -/
structure TopEntry (build : HnswBuild ν) (current : Int) : Prop where
  named : build.entryOwnerId = some current
  present : ∃ top, build.graph[current]? = some top ∧ top.level = build.maxLevel
  highest : ∀ (ownerId : Int) (entry : VectorCacheEntry ν), build.graph[ownerId]? = some entry →
    entry.level ≤ build.maxLevel ∧ (entry.level = build.maxLevel → current ≤ ownerId)

/-- What the build keeps from one insertion to the next. -/
structure Built (maximum : Nat) (build : HnswBuild ν) : Prop where
  linked : WellLinked maximum build.graph
  entryPoint : build.graph.isEmpty = true ∧ build.entryOwnerId = none ∨
    ∃ current, TopEntry build current
  capped : ∀ (ownerId : Int) (entry : VectorCacheEntry ν), build.graph[ownerId]? = some entry →
    entry.level ≤ 32

/-- The entry point reaches every entry. -/
def Reached (build : HnswBuild ν) : Prop :=
  ∀ current, build.entryOwnerId = some current → ∀ v ∈ build.graph, Reaches build.graph current v

variable {ownerId : Int}

theorem SameEntries.mem {graph graph' : VectorCacheGraph ν} (h : SameEntries graph graph') :
    ownerId ∈ graph' ↔ ownerId ∈ graph := by
  rw [Std.ExtTreeMap.mem_iff_isSome_getElem?, Std.ExtTreeMap.mem_iff_isSome_getElem?]
  have hsame := congrArg Option.isSome (h ownerId)
  rw [Option.isSome_map, Option.isSome_map] at hsame
  rw [hsame]

theorem mem_insert_entry {graph : VectorCacheGraph ν} {neighborId : Int}
    {entry : VectorCacheEntry ν} :
    ownerId ∈ graph.insert neighborId entry ↔ ownerId = neighborId ∨ ownerId ∈ graph := by
  rw [Std.ExtTreeMap.mem_iff_isSome_getElem?, Std.ExtTreeMap.mem_iff_isSome_getElem?,
    lookup_insert]
  split
  · rename_i hsame
    exact ⟨fun _ => .inl hsame, fun _ => rfl⟩
  · rename_i hne
    exact ⟨.inr, fun h => h.resolve_left hne⟩

/-- An entry as the build takes it up. -/
structure Fresh (entry : VectorCacheEntry ν) : Prop where
  level : entry.level ≤ 32
  neighbors : entry.neighbors = List.replicate (entry.level + 1) []

section Step

variable {maximum : Nat} {build : HnswBuild ν} {entry : VectorCacheEntry ν}

theorem Built.first (hfresh : Fresh entry) :
    Built maximum (⟨(∅ : VectorCacheGraph ν).insert entry.ownerId entry, some entry.ownerId,
      entry.level⟩ : HnswBuild ν) ∧
    Reached (⟨(∅ : VectorCacheGraph ν).insert entry.ownerId entry, some entry.ownerId,
      entry.level⟩ : HnswBuild ν) := by
  have hlookup : ∀ (ownerId : Int) (other : VectorCacheEntry ν),
      ((∅ : VectorCacheGraph ν).insert entry.ownerId entry)[ownerId]? = some other →
        ownerId = entry.ownerId ∧ other = entry := by
    intro ownerId other hother
    rw [lookup_insert] at hother
    split at hother
    · rename_i howner
      cases hother
      exact ⟨howner, rfl⟩
    · cases hother
  refine ⟨⟨⟨?_, ?_, ?_⟩, .inr ⟨entry.ownerId, rfl, ⟨entry, ?_, rfl⟩, ?_⟩, ?_⟩, ?_⟩
  · intro ownerId other hother
    obtain ⟨rfl, rfl⟩ := hlookup ownerId other hother
    rfl
  · intro ownerId other hother
    obtain ⟨rfl, rfl⟩ := hlookup ownerId other hother
    rw [hfresh.neighbors, List.length_replicate]
  · intro ownerId other hother level layer hlayer
    obtain ⟨rfl, rfl⟩ := hlookup ownerId other hother
    rw [hfresh.neighbors] at hlayer
    rw [List.eq_of_mem_replicate (List.mem_of_getElem? hlayer)]
    exact ⟨fun _ hv => absurd hv List.not_mem_nil, fun _ hv => absurd hv List.not_mem_nil,
      Nat.zero_le _⟩
  · rw [lookup_insert, if_pos rfl]
  · intro ownerId other hother
    obtain ⟨rfl, rfl⟩ := hlookup ownerId other hother
    exact ⟨le_rfl, fun _ => le_rfl⟩
  · intro ownerId other hother
    rw [(hlookup ownerId other hother).2]
    exact hfresh.level
  · intro current hcurrent v hv
    obtain ⟨other, hother⟩ := Option.isSome_iff_exists.mp
      (Std.ExtTreeMap.mem_iff_isSome_getElem?.mp hv)
    rw [← Option.some.inj hcurrent, (hlookup v other hother).1]
    exact .refl

variable {selected : List (List Int)}

theorem WellLinked.place (h : WellLinked maximum build.graph) (hnew : entry.ownerId ∉ build.graph)
    (hselected : Choices build.graph maximum selected)
    (hlength : selected.length = entry.level + 1) :
    WellLinked maximum (placedGraph build entry selected) ∧
      Connectable (placedGraph build entry selected) entry.ownerId 0 selected := by
  have hnone : build.graph[entry.ownerId]? = none := by
    simpa using hnew
  have hold : ∀ (level : Nat) (ownerId : Int), PresentOn build.graph level ownerId →
      ownerId ≠ entry.ownerId ∧ PresentOn (placedGraph build entry selected) level ownerId := by
    intro level ownerId hpresent
    obtain ⟨other, hother, hlevel⟩ := hpresent
    have hne : ownerId ≠ entry.ownerId := by
      intro hsame
      rw [hsame, hnone] at hother
      cases hother
    refine ⟨hne, other, ?_, hlevel⟩
    rw [placedGraph, lookup_insert, if_neg hne]
    exact hother
  have hplaced : (placedGraph build entry selected)[entry.ownerId]? =
      some { entry with neighbors := selected } := by
    rw [placedGraph, lookup_insert, if_pos rfl]
  refine ⟨⟨?_, ?_, ?_⟩, ?_⟩
  · intro ownerId other hother
    rw [placedGraph, lookup_insert] at hother
    split at hother
    · rename_i howner
      cases hother
      exact howner.symm
    · exact h.key ownerId other hother
  · intro ownerId other hother
    rw [placedGraph, lookup_insert] at hother
    split at hother
    · cases hother
      exact hlength
    · exact h.layers ownerId other hother
  · intro ownerId other hother level layer hlayer
    rw [placedGraph, lookup_insert] at hother
    split at hother
    · rename_i howner
      cases hother
      have hchoice := hselected level layer hlayer
      refine ⟨fun v hv => ?_, fun v hv => (hold level v (hchoice.present v hv)).2, ?_⟩
      · rw [howner]
        exact (hold level v (hchoice.present v hv)).1
      · have hdegree := hchoice.degree
        unfold degreeBound
        split <;> omega
    · have hfits := h.fits ownerId other hother level layer hlayer
      exact ⟨hfits.others, fun v hv => (hold level v (hfits.present v hv)).2, hfits.degree⟩
  · intro level layer hlayer
    have hchoice := hselected level layer hlayer
    obtain ⟨hlevel, _⟩ := List.getElem?_eq_some_iff.mp hlayer
    rw [Nat.zero_add]
    exact ⟨⟨_, hplaced, by dsimp only; omega⟩, fun v hv => hold level v (hchoice.present v hv)⟩

variable [LinearOrder σ] {similarity : ν → ν → QueryResult σ} {ef : Nat}

theorem bottomLinks_placed (hne : ownerId ≠ entry.ownerId) :
    bottomLinks (placedGraph build entry selected) ownerId = bottomLinks build.graph ownerId := by
  rw [placedGraph, bottomLinks_insert, if_neg hne]

theorem mem_bottomLinks {graph : VectorCacheGraph ν} {v : Int}
    (hv : v ∈ bottomLinks graph ownerId) : ownerId ∈ graph := by
  rw [Std.ExtTreeMap.mem_iff_isSome_getElem?]
  unfold bottomLinks levelZeroNeighbors at hv
  cases hentry : graph[ownerId]? with
  | none =>
    rw [hentry] at hv
    exact absurd hv List.not_mem_nil
  | some _ => rfl

theorem mem_keptLinks {placed : VectorCacheGraph ν} (h : WellLinked maximum placed) {newId v : Int}
    (hnew : newId ∈ placed) (hv : v ∈ keptLinks similarity maximum placed newId ownerId) :
    v = newId ∨ v ∈ bottomLinks placed ownerId := by
  have hpresent : ∀ w, w ∈ placed → PresentOn placed 0 w := by
    intro w hw
    obtain ⟨other, hother⟩ := Option.isSome_iff_exists.mp
      (Std.ExtTreeMap.mem_iff_isSome_getElem?.mp hw)
    exact ⟨other, hother, Nat.zero_le _⟩
  unfold keptLinks at hv
  split at hv
  · rename_i hselected
    have howner := (h.levelZero hnew).2 ownerId hselected
    obtain ⟨neighbor, layer, hneighbor, hlayer⟩ := h.layer (hpresent ownerId howner)
    have hlinks : bottomLinks placed ownerId = layer := by
      rw [bottomLinks, levelZeroNeighbors, hneighbor, Option.bind_some, List.head?_eq_getElem?,
        hlayer]
      rfl
    have hscores : Outcome (SimilarityFails similarity)
        (fun scored => scored.map (·.ownerId) = withOwner newId layer)
        (scoreNeighbors similarity placed neighbor.vector (withOwner newId layer)) := by
      have hthere : ∀ w ∈ withOwner newId layer, PresentOn placed 0 w := by
        intro w hw
        rcases mem_withOwner hw with hw | rfl
        · exact hpresent w ((h.levelZero howner).2 w (hlinks ▸ hw))
        · exact hpresent w hnew
      exact scoreNeighbors_scores neighbor.vector hthere
    rw [connectHnswNeighbor_eq hneighbor hlayer] at hv
    cases hscored : scoreNeighbors similarity placed neighbor.vector (withOwner newId layer) with
    | error e =>
      rw [hscored] at hv
      exact absurd hv List.not_mem_nil
    | ok scored =>
      obtain ⟨hlt, _⟩ := List.getElem?_eq_some_iff.mp hlayer
      have hset : (neighbor.withLayer 0 (pruned (layerMaximum maximum 0) scored)).neighbors.head? =
          some (pruned (layerMaximum maximum 0) scored) := by
        rw [VectorCacheEntry.withLayer, List.head?_eq_getElem?, List.getElem?_set_self hlt]
      rw [hscored, ok_bind] at hv
      dsimp only at hv
      rw [bottomLinks_insert, if_pos rfl, hset] at hv
      have hmem := mem_pruned hv
      rw [hscores.of_ok hscored] at hmem
      rw [hlinks]
      exact (mem_withOwner hmem).symm
  · exact .inr hv

theorem newNode_connected (h : WellLinked maximum build.graph) (hnew : entry.ownerId ∉ build.graph)
    (hplaced : WellLinked maximum (placedGraph build entry selected)) {graph : VectorCacheGraph ν}
    (hkept : ∀ ownerId, bottomLinks graph ownerId =
      keptLinks similarity maximum (placedGraph build entry selected) entry.ownerId ownerId) :
    NewNode (· ∈ build.graph) (· ∈ bottomLinks (placedGraph build entry selected) entry.ownerId)
      (fun a b => b ∈ bottomLinks build.graph a) (Lasts similarity maximum build entry selected)
      (fun a b => b ∈ bottomLinks graph a) entry.ownerId := by
  have hmem : entry.ownerId ∈ placedGraph build entry selected := mem_insert_entry.mpr (.inl rfl)
  have hothers : ∀ v ∈ bottomLinks (placedGraph build entry selected) entry.ownerId,
      v ≠ entry.ownerId ∧ v ∈ build.graph := by
    intro v hv
    have hne : v ≠ entry.ownerId := by
      have hpresent : PresentOn (placedGraph build entry selected) 0 entry.ownerId :=
        ⟨_, by rw [placedGraph, lookup_insert, if_pos rfl], Nat.zero_le _⟩
      obtain ⟨other, layer, hother, hlayer⟩ := hplaced.layer hpresent
      refine (hplaced.fits _ other hother 0 layer hlayer).others v ?_
      rw [bottomLinks, levelZeroNeighbors, hother, Option.bind_some, List.head?_eq_getElem?,
        hlayer] at hv
      exact hv
    exact ⟨hne, (mem_insert_entry.mp ((hplaced.levelZero hmem).2 v hv)).resolve_left hne⟩
  refine ⟨hnew, fun a ha => (hothers a ha).2, fun a b hlink => ?_, fun a b hlast => hlast.1,
    fun a b ha hb => ?_, fun b => ?_⟩
  · exact ⟨mem_bottomLinks hlink, (h.levelZero (mem_bottomLinks hlink)).2 b hlink⟩
  · rw [hkept]
    refine ⟨fun hlink => ⟨?_, hlink⟩, fun hlast => hlast.2⟩
    have hlinks := (mem_keptLinks hplaced hmem hlink).resolve_left hb
    rw [bottomLinks_placed ha] at hlinks
    exact hlinks
  · rw [hkept, keptLinks, if_neg fun hself => (hothers _ hself).1 rfl]

section Connected

variable {selected : List (List Int)} {graph : VectorCacheGraph ν}

theorem level_connected (hsame : SameEntries (placedGraph build entry selected) graph)
    {other : VectorCacheEntry ν} (hother : graph[ownerId]? = some other) :
    ownerId = entry.ownerId ∧ other.level = entry.level ∨
      ∃ before, build.graph[ownerId]? = some before ∧ before.level = other.level := by
  obtain ⟨before, hbefore, hidentity⟩ := hsame.symm.exists hother
  simp only [identity, Prod.mk.injEq] at hidentity
  rw [placedGraph, lookup_insert] at hbefore
  split at hbefore
  · rename_i howner
    cases hbefore
    exact .inl ⟨howner, hidentity.2.2.symm⟩
  · exact .inr ⟨before, hbefore, hidentity.2.2⟩

theorem TopEntry.above (hsame : SameEntries (placedGraph build entry selected) graph)
    {current : Int} (h : TopEntry build current) (hlevel : build.maxLevel < entry.level) :
    TopEntry ⟨graph, some entry.ownerId, entry.level⟩ entry.ownerId := by
  refine ⟨rfl, ?_, fun ownerId other hother => ?_⟩
  · obtain ⟨other, hother, hidentity⟩ := hsame.exists
      (by rw [placedGraph, lookup_insert, if_pos rfl])
    simp only [identity, Prod.mk.injEq] at hidentity
    exact ⟨other, hother, hidentity.2.2⟩
  · rcases level_connected hsame hother with ⟨rfl, hentry⟩ | ⟨before, hbefore, hsameLevel⟩
    · exact ⟨Nat.le_of_eq hentry, fun _ => le_rfl⟩
    · have hbound := (h.highest ownerId before hbefore).1
      dsimp only
      omega

theorem TopEntry.below (hsame : SameEntries (placedGraph build entry selected) graph)
    {current : Int} (h : TopEntry build current) (hlevel : entry.level ≤ build.maxLevel)
    (hcurrent : current < entry.ownerId) :
    TopEntry ⟨graph, build.entryOwnerId, build.maxLevel⟩ current := by
  refine ⟨h.named, ?_, fun ownerId other hother => ?_⟩
  · obtain ⟨top, htop, htopLevel⟩ := h.present
    obtain ⟨other, hother, hidentity⟩ := hsame.exists (by
      rw [placedGraph, lookup_insert, if_neg hcurrent.ne]
      exact htop)
    simp only [identity, Prod.mk.injEq] at hidentity
    exact ⟨other, hother, hidentity.2.2.trans htopLevel⟩
  · rcases level_connected hsame hother with ⟨rfl, hentry⟩ | ⟨before, hbefore, hsameLevel⟩
    · exact ⟨hentry ▸ hlevel, fun _ => hcurrent.le⟩
    · rw [← hsameLevel]
      exact h.highest ownerId before hbefore

end Connected

/-- **An insertion keeps what the build keeps**, and every entry is reached exactly where it joins.
-/
theorem Built.step (h : Built maximum build)
    (hnew : ∀ ownerId ∈ build.graph, ownerId < entry.ownerId) (hfresh : Fresh entry) :
    Outcome (SimilarityFails similarity)
      (fun build' => Built maximum build' ∧
        (∀ ownerId, ownerId ∈ build'.graph ↔ ownerId = entry.ownerId ∨ ownerId ∈ build.graph) ∧
        (Reached build' ↔ InsertionJoins similarity maximum ef build entry))
      (insertEntry similarity maximum ef build entry) := by
  unfold insertEntry
  split
  · rename_i hempty
    have hgraph : build.graph = ∅ := Std.ExtTreeMap.isEmpty_iff.mp hempty
    have hnone : build.entryOwnerId = none := by
      rcases h.entryPoint with ⟨_, hnone⟩ | ⟨current, htop⟩
      · exact hnone
      · obtain ⟨top, hlookup, _⟩ := htop.present
        rw [hgraph, Std.ExtTreeMap.getElem?_empty] at hlookup
        cases hlookup
    rw [hgraph]
    obtain ⟨hbuilt, hreached⟩ := Built.first hfresh
    refine outcome_ok ⟨hbuilt, fun ownerId => mem_insert_entry, iff_of_true hreached ?_⟩
    intro current selected hcurrent _
    rw [hnone] at hcurrent
    cases hcurrent
  · rename_i hsome
    obtain ⟨current, htop⟩ := h.entryPoint.resolve_left fun hno => hsome hno.1
    obtain ⟨top, hlookup, htopLevel⟩ := htop.present
    have hcurrentmem : current ∈ build.graph :=
      Std.ExtTreeMap.mem_iff_isSome_getElem?.mpr (by rw [hlookup]; rfl)
    have habsent : entry.ownerId ∉ build.graph := fun hmem => (hnew _ hmem).ne rfl
    rw [htop.named]
    refine (selectHnswNeighborsForNewEntry_offers ⟨top, hlookup, htopLevel.ge⟩ entry).bind
      fun selected hselect hselected => ?_
    obtain ⟨hplaced, hconnectable⟩ := h.linked.place habsent hselected.1 hselected.2
    have hentry : (placedGraph build entry selected)[entry.ownerId]? =
        some { entry with neighbors := selected } := by
      rw [placedGraph, lookup_insert, if_pos rfl]
    have hdistinct : (bottomLinks (placedGraph build entry selected) entry.ownerId).Nodup := by
      rw [placedGraph, bottomLinks_insert, if_pos rfl]
      cases selected with
      | nil => exact List.nodup_nil
      | cons bottom rest => exact (hselected.1 0 bottom rfl).distinct
    have hconnect : Outcome (SimilarityFails similarity)
        (fun graph => WellLinked maximum graph ∧
          SameEntries (placedGraph build entry selected) graph ∧
          ∀ ownerId, bottomLinks graph ownerId = keptLinks similarity maximum
            (placedGraph build entry selected) entry.ownerId ownerId)
        (connectHnswEntry similarity maximum (placedGraph build entry selected) entry.ownerId) :=
      connectHnswEntry_keeps hplaced hentry hdistinct hconnectable
    refine hconnect.bind fun graph _ hgraph => ?_
    obtain ⟨hlinked, hsame, hkept⟩ := hgraph
    have hnode := newNode_connected h.linked habsent hplaced hkept
    have hmem : ∀ ownerId, ownerId ∈ graph ↔ ownerId = entry.ownerId ∨ ownerId ∈ build.graph := by
      intro ownerId
      rw [hsame.mem, placedGraph]
      exact mem_insert_entry
    have hcapped : ∀ (ownerId : Int) (other : VectorCacheEntry ν), graph[ownerId]? = some other →
        other.level ≤ 32 := by
      intro ownerId other hother
      rcases level_connected hsame hother with ⟨_, hlevel⟩ | ⟨before, hbefore, hlevel⟩
      · exact hlevel ▸ hfresh.level
      · exact hlevel ▸ h.capped ownerId before hbefore
    have hjoins : InsertionJoins similarity maximum ef build entry ↔
        Joins similarity maximum build entry current selected := by
      refine ⟨fun hall => hall current selected htop.named hselect, fun hhere => ?_⟩
      intro current' selected' hcurrent' hselect'
      rw [htop.named] at hcurrent'
      rw [← Option.some.inj hcurrent', hselect] at hselect'
      rw [← Option.some.inj hcurrent', ← Except.ok.inj hselect']
      exact hhere
    have hreached : ∀ root maxLevel, Reached ⟨graph, some root, maxLevel⟩ ↔
        ∀ v, v = entry.ownerId ∨ v ∈ build.graph →
          ReflTransGen (fun a b => b ∈ bottomLinks graph a) root v := by
      intro root maxLevel
      refine ⟨fun hall v hv => hall root rfl v ((hmem v).mpr hv), fun hall root' hroot' v hv => ?_⟩
      rw [← Option.some.inj hroot']
      exact hall v ((hmem v).mp hv)
    split
    · rename_i hlevel
      refine outcome_ok ⟨⟨hlinked, .inr ⟨_, htop.above hsame hlevel⟩, hcapped⟩, hmem, ?_⟩
      rw [hreached, hnode.reached_new hcurrentmem, hjoins]
      refine ⟨fun hparts => ⟨?_, hparts.2⟩, fun hparts => ⟨?_, hparts.rejoined⟩⟩
      · rw [if_pos hlevel]
        exact hparts.1
      · have hhere := hparts.linked
        rw [if_pos hlevel] at hhere
        exact hhere
    · rename_i hlevel
      have hkeeps := htop.below hsame (Nat.le_of_not_lt hlevel) (hnew current hcurrentmem)
      rw [htop.named] at hkeeps
      refine outcome_ok ⟨⟨hlinked, .inr ⟨_, hkeeps⟩, hcapped⟩, hmem, ?_⟩
      rw [hreached, hnode.reached_old hcurrentmem, hjoins]
      simp only [hkept]
      refine ⟨fun hparts => ⟨?_, hparts.2⟩, fun hparts => ⟨?_, hparts.rejoined⟩⟩
      · rw [if_neg hlevel]
        exact hparts.1
      · have hhere := hparts.linked
        rw [if_neg hlevel] at hhere
        exact hhere

/-- **A run of insertions in the order of the owners keeps what the build keeps.** -/
theorem Built.run : ∀ {entries : List (VectorCacheEntry ν)} {build : HnswBuild ν},
    Built maximum build → (entries.map (·.ownerId)).Pairwise (· < ·) →
      (∀ entry ∈ entries, (∀ ownerId ∈ build.graph, ownerId < entry.ownerId) ∧ Fresh entry) →
      Outcome (SimilarityFails similarity)
        (fun build' => Built maximum build' ∧ ∀ ownerId ∈ build'.graph,
          ownerId ∈ build.graph ∨ ownerId ∈ entries.map (·.ownerId))
        (entries.foldlM (insertEntry similarity maximum ef) build)
  | [], _, h, _, _ => outcome_ok ⟨h, fun _ hmem => .inl hmem⟩
  | entry :: entries, build, h, hascending, hall => by
    obtain ⟨hhere, hascending⟩ := List.pairwise_cons.mp hascending
    obtain ⟨⟨hnew, hfresh⟩, hrest⟩ := List.forall_mem_cons.mp hall
    refine (h.step hnew hfresh).bind fun build' _ hstep => ?_
    obtain ⟨hbuilt, hmem, _⟩ := hstep
    have hrest' : ∀ other ∈ entries,
        (∀ ownerId ∈ build'.graph, ownerId < other.ownerId) ∧ Fresh other := by
      intro other hother
      refine ⟨fun ownerId howner => ?_, (hrest other hother).2⟩
      rcases (hmem ownerId).mp howner with rfl | hold
      · exact hhere _ (List.mem_map_of_mem hother)
      · exact (hrest other hother).1 ownerId hold
    refine (Built.run hbuilt hascending hrest').mono fun final hfinal => ⟨hfinal.1, ?_⟩
    intro ownerId howner
    rcases hfinal.2 ownerId howner with hbefore | hlater
    · rcases (hmem ownerId).mp hbefore with rfl | hold
      · exact .inr (.head _)
      · exact .inl hold
    · exact .inr (.tail _ hlater)

end Step

/-! ## 4. The build -/

section Build

variable {hash : Int → Nat} {maximum : Nat} {entries : List (VectorCacheEntry ν)}

theorem levelLoop_le (base : Nat) : ∀ (rest value : Nat), levelLoop base rest value ≤ rest
  | 0, _ => le_rfl
  | rest + 1, value => by
    unfold levelLoop
    split
    · exact Nat.succ_le_succ (levelLoop_le base rest _)
    · exact Nat.zero_le _

theorem orderedEntries_fresh : ∀ entry ∈ orderedEntries hash maximum entries, Fresh entry := by
  intro entry hentry
  obtain ⟨source, _, rfl⟩ := List.mem_map.mp hentry
  exact ⟨levelLoop_le _ 32 _, rfl⟩

theorem orderedEntries_ascending (h : (entries.map (·.ownerId)).Nodup) :
    ((orderedEntries hash maximum entries).map (·.ownerId)).Pairwise (· < ·) := by
  have howners : (orderedEntries hash maximum entries).map (·.ownerId) =
      (entries.map (·.ownerId)).insertionSort (· ≤ ·) := by
    unfold orderedEntries initializeHnswEntries
    rw [List.map_map]
    exact List.map_insertionSort (fun a b : VectorCacheEntry ν => a.ownerId ≤ b.ownerId) (· ≤ ·)
      VectorCacheEntry.ownerId entries fun _ _ _ _ => Iff.rfl
  rw [howners, ← List.sortedLT_iff_pairwise, List.sortedLT_iff_nodup_and_sortedLE]
  exact ⟨(List.perm_insertionSort _ _).nodup_iff.mpr h, List.sortedLE_insertionSort⟩

theorem collectGraph_toList {graph : VectorCacheGraph ν} (h : WellLinked maximum graph) :
    ((graph.toList.map (·.2)).map (·.ownerId)).Nodup ∧
      collectGraph (graph.toList.map (·.2)) = graph := by
  have hdistinct : ((graph.toList.map (·.2)).map (·.ownerId)).Nodup := by
    rw [List.map_map, List.nodup_iff_pairwise_ne, List.pairwise_map]
    refine (toList_keys_ne graph).imp_of_mem fun ha hb hne => ?_
    rw [Function.comp, h.key _ _ (lookup_of_mem ha), Function.comp,
      h.key _ _ (lookup_of_mem hb)]
    exact hne
  refine ⟨hdistinct, Std.ExtTreeMap.ext_getElem? fun ownerId => Option.ext fun entry => ?_⟩
  rw [collectGraph_some hdistinct, List.mem_map]
  constructor
  · intro hentry
    obtain ⟨⟨pair, hpair, rfl⟩, rfl⟩ := hentry
    have hfound := lookup_of_mem (k := pair.1) (v := pair.2) hpair
    rw [h.key _ _ hfound]
    exact hfound
  · intro hentry
    exact ⟨⟨_, mem_of_lookup hentry, rfl⟩, h.key _ _ hentry⟩

/-- The degree bounds of a result. -/
def DegreesBounded (maximum : Nat) (result : List (VectorCacheEntry ν)) : Prop :=
  ∀ entry ∈ result, ∀ level layer, entry.neighbors[level]? = some layer →
    layer.length ≤ degreeBound maximum level

theorem WellLinked.degrees {result : List (VectorCacheEntry ν)}
    (hdistinct : (result.map (·.ownerId)).Nodup)
    (h : WellLinked maximum (collectGraph result)) : DegreesBounded maximum result := by
  intro entry hentry level layer hlayer
  exact (h.fits _ entry ((collectGraph_some hdistinct).mpr ⟨hentry, rfl⟩) level layer hlayer).degree

/-- What every result of the build is like: valid links of bounded degrees, few levels, and an entry
    point on the top level. -/
structure WellFormed (maximum : Nat) (result : List (VectorCacheEntry ν)) : Prop where
  links : vectorCacheLinksValid (collectGraph result) (persistedMeta result).maxLevel = true
  degrees : DegreesBounded maximum result
  capped : (persistedMeta result).maxLevel ≤ 32
  point : result = [] ∨ ∃ entry ∈ result,
    (persistedMeta result).entryOwnerId = some entry.ownerId ∧
      entry.level = (persistedMeta result).maxLevel

theorem WellLinked.formed {result : List (VectorCacheEntry ν)}
    (hdistinct : (result.map (·.ownerId)).Nodup) (h : WellLinked maximum (collectGraph result))
    (hlevels : ∀ entry ∈ result, entry.level ≤ 32) : WellFormed maximum result := by
  have hpoint : result = [] ∨ ∃ entry ∈ result,
      (persistedMeta result).entryOwnerId = some entry.ownerId ∧
        entry.level = (persistedMeta result).maxLevel := by
    by_cases hsome : result = []
    · exact .inl hsome
    · obtain ⟨point, hpoint, hmeta, hlevel, _⟩ := persistedMeta_point hsome
      exact .inr ⟨point, hpoint, hmeta, hlevel⟩
  refine ⟨h.linksValid fun ownerId entry hentry => ?_, h.degrees hdistinct, ?_, hpoint⟩
  · exact persistedMeta_levels entry ((collectGraph_some hdistinct).mp hentry).1
  · rcases hpoint with rfl | ⟨entry, hentry, _, hlevel⟩
    · exact Nat.zero_le _
    · exact hlevel ▸ hlevels entry hentry

theorem connectSingleNeighbor_accepted (hdistinct : (entries.map (·.ownerId)).Nodup)
    (hfresh : ∀ entry ∈ entries, Fresh entry) :
    WellFormed 1 (connectSingleNeighborHnswLayers entries) ∧
      vectorCacheGraphValid (collectGraph (connectSingleNeighborHnswLayers entries))
        (persistedMeta (connectSingleNeighborHnswLayers entries)) = true := by
  obtain ⟨hsame, hringed⟩ := ringed_layers (fun entry hentry => (hfresh entry hentry).neighbors)
    ((entries.map (·.level)).foldl max 0 + 1)
  have hlevel : ∀ entry ∈ connectSingleNeighborHnswLayers entries,
      ∃ source ∈ entries, source.level = entry.level := by
    intro entry hentry
    have hview : identity entry ∈ entries.map identity := by
      rw [← hsame]
      exact List.mem_map_of_mem hentry
    obtain ⟨source, hsource, hidentity⟩ := List.mem_map.mp hview
    simp only [identity, Prod.mk.injEq] at hidentity
    exact ⟨source, hsource, hidentity.2.2⟩
  have hring : Ring entries (connectSingleNeighborHnswLayers entries)
      ((entries.map (·.level)).foldl max 0 + 1) := by
    refine ⟨hdistinct, hsame, hringed, fun entry hentry => ?_⟩
    obtain ⟨source, hsource, hsourceLevel⟩ := hlevel entry hentry
    rw [← hsourceLevel]
    exact Nat.lt_succ_of_le ((foldl_max_spec _ 0).2.1 _ (List.mem_map_of_mem hsource))
  have hcapped : ∀ entry ∈ connectSingleNeighborHnswLayers entries, entry.level ≤ 32 := by
    intro entry hentry
    obtain ⟨source, hsource, hsourceLevel⟩ := hlevel entry hentry
    exact hsourceLevel ▸ (hfresh source hsource).level
  refine ⟨(ring_wellLinked hring).formed hring.resultDistinct hcapped,
    (graphValid_iff hring.resultDistinct (ring_wellLinked hring) hcapped).mpr ?_⟩
  intro point hpoint v hv
  have hsome : connectSingleNeighborHnswLayers entries ≠ [] := by
    intro hnil
    rw [hnil] at hpoint
    cases hpoint
  obtain ⟨entry, hentry, hmeta, _, _⟩ := persistedMeta_point hsome
  rw [hmeta] at hpoint
  cases hpoint
  refine ring_strong hring entry.ownerId v ?_ hv
  exact Std.ExtTreeMap.mem_iff_isSome_getElem?.mpr
    (by rw [(collectGraph_some hring.resultDistinct).mpr ⟨hentry, rfl⟩]; rfl)

variable {build : HnswBuild ν}

theorem TopEntry.persisted {current : Int} (h : TopEntry build current)
    (hlinked : WellLinked maximum build.graph) :
    (persistedMeta (build.graph.toList.map (·.2))).entryOwnerId = some current := by
  obtain ⟨hvalues, hgraph⟩ := collectGraph_toList hlinked
  have hlookup : ∀ (ownerId : Int) (entry : VectorCacheEntry ν),
      build.graph[ownerId]? = some entry ↔
        entry ∈ build.graph.toList.map (·.2) ∧ entry.ownerId = ownerId := by
    intro ownerId entry
    rw [← collectGraph_some hvalues, hgraph]
  obtain ⟨top, htop, htopLevel⟩ := h.present
  obtain ⟨htopMem, htopOwner⟩ := (hlookup current top).mp htop
  obtain ⟨point, hpoint, hmeta, hlevel, hleast⟩ := persistedMeta_point (List.ne_nil_of_mem htopMem)
  obtain ⟨hbound, hfirst⟩ := h.highest point.ownerId point ((hlookup _ _).mpr ⟨hpoint, rfl⟩)
  have hsame : top.level = point.level := by
    have hle := persistedMeta_levels top htopMem
    omega
  have howner : point.ownerId = current :=
    le_antisymm (htopOwner ▸ hleast top htopMem hsame) (hfirst (hsame.symm.trans htopLevel))
  rw [hmeta, howner]

theorem Built.accepted (h : Built maximum build) :
    WellFormed maximum (build.graph.toList.map (·.2)) ∧
      (vectorCacheGraphValid (collectGraph (build.graph.toList.map (·.2)))
        (persistedMeta (build.graph.toList.map (·.2))) = true ↔ Reached build) := by
  obtain ⟨hvalues, hgraph⟩ := collectGraph_toList h.linked
  have hlinked : WellLinked maximum (collectGraph (build.graph.toList.map (·.2))) := by
    rw [hgraph]
    exact h.linked
  have hcapped : ∀ entry ∈ build.graph.toList.map (·.2), entry.level ≤ 32 := by
    intro entry hentry
    have hfound := (collectGraph_some hvalues).mpr ⟨hentry, rfl⟩
    rw [hgraph] at hfound
    exact h.capped _ entry hfound
  refine ⟨hlinked.formed hvalues hcapped, (graphValid_iff hvalues hlinked hcapped).trans ?_⟩
  rw [hgraph]
  rcases h.entryPoint with ⟨hempty, hnone⟩ | ⟨current, htop⟩
  · have hgone : ∀ v : Int, v ∉ build.graph := by
      rw [Std.ExtTreeMap.isEmpty_iff.mp hempty]
      exact fun v => Std.ExtTreeMap.not_mem_empty
    exact iff_of_true (fun _ _ v hv => absurd hv (hgone v)) fun _ _ v hv => absurd hv (hgone v)
  · rw [htop.persisted h.linked, Reached, htop.named]

variable [LinearOrder σ] {similarity : ν → ν → QueryResult σ} {ef : Nat}

theorem lastJoins_append {front : List (VectorCacheEntry ν)} {last : VectorCacheEntry ν}
    (hbuild : front.foldlM (insertEntry similarity maximum ef) (⟨∅, none, 0⟩ : HnswBuild ν) =
      .ok build) :
    LastJoins similarity maximum ef (front ++ [last]) ↔
      InsertionJoins similarity maximum ef build last := by
  refine ⟨fun h => h front last build rfl hbuild, fun h front' last' build' hsame hbuild' => ?_⟩
  obtain ⟨rfl, hlast⟩ := List.append_inj' hsame rfl
  rw [hbuild] at hbuild'
  cases hbuild'
  cases hlast
  exact h

/-- The first words of the digests of some owners, the only ones among the first twelve whose level
    is zero for two connections. -/
def sampleDigest (ownerId : Int) : Nat :=
  ([(1, 17125360191728203273), (2, 16616700729691440941), (3, 8476227670129432235),
    (6, 11174689055502745639), (8, 13214717149388236235), (10, 15659515456187831035),
    (12, 5430318071260300145)].lookup ownerId).getD 1

def sampleEntries (vectors : List (Int × Int)) : List (VectorCacheEntry Int) :=
  vectors.map fun (ownerId, vector) => ⟨ownerId, vector, 0, [[]]⟩

/-- The nearer on a line, the more similar. -/
def lineSimilarity (left right : Int) : QueryResult Int := .ok (-|left - right|)

/-- The cache accepts the graph that the build returned. -/
def acceptsBuilt (outcome : QueryResult (List (VectorCacheEntry ν))) : Bool :=
  match outcome with
  | .error _ => false
  | .ok result => vectorCacheGraphValid (collectGraph result) (persistedMeta result)

theorem acceptsBuilt_iff {outcome : QueryResult (List (VectorCacheEntry ν))} {P : Prop}
    {fails : QueryError → Prop}
    (h : Outcome fails (fun result => WellFormed maximum result ∧
      (vectorCacheGraphValid (collectGraph result) (persistedMeta result) = true ↔ P)) outcome)
    (hok : outcome.isOk = true) : acceptsBuilt outcome = true ↔ P := by
  cases outcome with
  | error e => cases hok
  | ok result => exact (h.of_ok rfl).2

end Build

end Lithograph.Query.SemanticIndex
