/-
  File:      Lithograph/Query/SemanticIndex/HnswRing.lean
  Subject:   The layers of a graph whose entries have a single connection.

  * **`ring_wellLinked`**, **`ring_strong`**: it is well linked, and level zero leads round to every
    entry.
-/
import Lithograph.Query.SemanticIndex.HnswAccept

namespace Lithograph.Query.SemanticIndex

open Lithograph.Library
open Relation (ReflTransGen)

variable {ν : Type}

/-! ## 1. One level -/

/-- The owner that follows the one at a position. -/
def nextOwner (owners : List Int) (position : Nat) : Int :=
  owners.getD ((position + 1) % owners.length) 0

/-- The layer of an owner: the owner that follows, unless there is no other. -/
def RingLayer (owners : List Int) (ownerId : Int) (layer : List Int) : Prop :=
  owners.length ≤ 1 ∧ layer = [] ∨
    1 < owners.length ∧ ∃ position, owners[position]? = some ownerId ∧
      layer = [nextOwner owners position]

/-- An entry of the level has its layer set, any other entry stays. -/
def RingStep (owners : List Int) (level : Nat) (entry entry' : VectorCacheEntry ν) : Prop :=
  entry.level < level ∧ entry' = entry ∨
    level ≤ entry.level ∧ ∃ position, owners[position]? = some entry.ownerId ∧
      entry' = entry.withLayer level [nextOwner owners position]

theorem linkRing_links {owners : List Int} {level : Nat} : ∀ (entries : List (VectorCacheEntry ν))
    (position : Nat), owners.drop position = levelOwners entries level →
      List.Forall₂ (RingStep owners level) entries (linkRing owners level position entries)
  | [], _, _ => .nil
  | entry :: entries, position, howners => by
    unfold linkRing
    by_cases hlevel : level ≤ entry.level
    · have hfilter : levelOwners (entry :: entries) level =
          entry.ownerId :: levelOwners entries level := by
        simp [levelOwners, hlevel]
      rw [hfilter] at howners
      have hhere : owners[position]? = some entry.ownerId := by
        rw [← List.head?_drop, howners]
        rfl
      have hrest : owners.drop (position + 1) = levelOwners entries level := by
        rw [← List.tail_drop, howners]
        rfl
      rw [if_pos hlevel]
      exact .cons (.inr ⟨hlevel, position, hhere, rfl⟩) (linkRing_links entries _ hrest)
    · have hfilter : levelOwners (entry :: entries) level = levelOwners entries level := by
        simp [levelOwners, hlevel]
      rw [hfilter] at howners
      rw [if_neg hlevel]
      exact .cons (.inl ⟨Nat.lt_of_not_le hlevel, rfl⟩) (linkRing_links entries _ howners)

theorem RingStep.identity {owners : List Int} {level : Nat} {entry entry' : VectorCacheEntry ν}
    (h : RingStep owners level entry entry') : identity entry' = identity entry := by
  rcases h with ⟨_, rfl⟩ | ⟨_, _, _, rfl⟩
  · rfl
  · rfl

variable {level : Nat} {ownerId : Int}

theorem ringSteps_from {owners : List Int} {entries entries' :
    List (VectorCacheEntry ν)} (h : List.Forall₂ (RingStep owners level) entries entries') :
    entries'.map identity = entries.map identity ∧
      ∀ entry' ∈ entries', ∃ entry ∈ entries, RingStep owners level entry entry' := by
  induction h with
  | nil => exact ⟨rfl, fun _ hentry => absurd hentry List.not_mem_nil⟩
  | cons hstep _ ih =>
    refine ⟨?_, List.forall_mem_cons.mpr ⟨⟨_, .head _, hstep⟩, ?_⟩⟩
    · rw [List.map_cons, List.map_cons, hstep.identity, ih.1]
    · intro entry' hentry'
      obtain ⟨entry, hentry, hfrom⟩ := ih.2 entry' hentry'
      exact ⟨entry, .tail _ hentry, hfrom⟩

/-! ## 2. All levels -/

/-- An entry whose layers below a level are set, and empty from that level on upwards. -/
structure Ringed (owners : Nat → List Int) (level : Nat) (entry : VectorCacheEntry ν) : Prop where
  layers : entry.neighbors.length = entry.level + 1
  below : ∀ l layer, l < level → entry.neighbors[l]? = some layer →
    RingLayer (owners l) entry.ownerId layer
  above : ∀ l layer, level ≤ l → entry.neighbors[l]? = some layer → layer = []

theorem Ringed.alone {owners : Nat → List Int} {entry : VectorCacheEntry ν}
    (h : Ringed owners level entry) (halone : (owners level).length ≤ 1) :
    Ringed owners (level + 1) entry := by
  refine ⟨h.layers, fun l layer hl hlayer => ?_, fun l layer hl hlayer => ?_⟩
  · rcases Nat.lt_succ_iff_lt_or_eq.mp hl with hl | rfl
    · exact h.below l layer hl hlayer
    · exact .inl ⟨halone, h.above l layer le_rfl hlayer⟩
  · exact h.above l layer (Nat.le_of_succ_le hl) hlayer

theorem Ringed.step {owners : Nat → List Int} {entry entry' : VectorCacheEntry ν}
    (h : Ringed owners level entry) (hmany : 1 < (owners level).length)
    (hstep : RingStep (owners level) level entry entry') : Ringed owners (level + 1) entry' := by
  rcases hstep with ⟨hlow, rfl⟩ | ⟨hlevel, position, hposition, rfl⟩
  · -- the entry has no layer on this level
    have hnone : ∀ layer, entry'.neighbors[level]? ≠ some layer := by
      intro layer hlayer
      obtain ⟨hlt, _⟩ := List.getElem?_eq_some_iff.mp hlayer
      have hlength := h.layers
      omega
    refine ⟨h.layers, fun l layer hl hlayer => ?_, fun l layer hl hlayer => ?_⟩
    · rcases Nat.lt_succ_iff_lt_or_eq.mp hl with hl | rfl
      · exact h.below l layer hl hlayer
      · exact absurd hlayer (hnone layer)
    · exact h.above l layer (Nat.le_of_succ_le hl) hlayer
  · have hlength : level < entry.neighbors.length := by
      rw [h.layers]
      omega
    refine ⟨?_, fun l layer hl hlayer => ?_, fun l layer hl hlayer => ?_⟩
    · rw [VectorCacheEntry.withLayer, List.length_set]
      exact h.layers
    · rw [VectorCacheEntry.withLayer, List.getElem?_set] at hlayer
      split at hlayer
      · rename_i hsame
        subst hsame
        cases hlayer
        exact .inr ⟨hmany, position, hposition, rfl⟩
      · exact h.below l layer (by omega) hlayer
    · rw [VectorCacheEntry.withLayer, List.getElem?_set_ne (by omega)] at hlayer
      exact h.above l layer (Nat.le_of_succ_le hl) hlayer

variable {entries : List (VectorCacheEntry ν)}

theorem levelOwners_identity {entries' : List (VectorCacheEntry ν)}
    (h : entries'.map identity = entries.map identity) (level : Nat) :
    levelOwners entries' level = levelOwners entries level := by
  have hview : ∀ l : List (VectorCacheEntry ν), levelOwners l level =
      ((l.map identity).filter fun view => decide (level ≤ view.2.2)).map (·.1) := by
    intro l
    rw [List.filter_map, List.map_map]
    rfl
  rw [hview, hview, h]

/-- One round of the loop over the levels. -/
def ringRound (entries : List (VectorCacheEntry ν)) (level : Nat) : List (VectorCacheEntry ν) :=
  if (levelOwners entries level).length ≤ 1 then entries
  else linkRing (levelOwners entries level) level 0 entries

theorem ringRound_keeps {current : List (VectorCacheEntry ν)}
    (hidentity : current.map identity = entries.map identity)
    (h : ∀ entry ∈ current, Ringed (levelOwners entries) level entry) :
    (ringRound current level).map identity = entries.map identity ∧
      ∀ entry ∈ ringRound current level, Ringed (levelOwners entries) (level + 1) entry := by
  have howners := levelOwners_identity hidentity level
  unfold ringRound
  rw [howners]
  split
  · rename_i halone
    exact ⟨hidentity, fun entry hentry => (h entry hentry).alone halone⟩
  · rename_i hmany
    have hlinks : List.Forall₂ (RingStep (levelOwners entries level) level) current
        (linkRing (levelOwners entries level) level 0 current) :=
      linkRing_links current 0 (by rw [List.drop_zero, howners])
    obtain ⟨hsame, hfrom⟩ := ringSteps_from hlinks
    refine ⟨hsame.trans hidentity, fun entry' hentry' => ?_⟩
    obtain ⟨entry, hentry, hstep⟩ := hfrom entry' hentry'
    exact (h entry hentry).step (Nat.lt_of_not_le hmany) hstep

/-- **The loop over the levels** leaves every layer a ring. -/
theorem ringed_layers (hempty : ∀ entry ∈ entries,
      entry.neighbors = List.replicate (entry.level + 1) []) (count : Nat) :
    ((List.range count).foldl ringRound entries).map identity = entries.map identity ∧
      ∀ entry ∈ (List.range count).foldl ringRound entries,
        Ringed (levelOwners entries) count entry := by
  induction count with
  | zero =>
    refine ⟨rfl, fun entry hentry => ⟨?_, fun _ _ hl => absurd hl (Nat.not_lt_zero _), ?_⟩⟩
    · rw [hempty entry hentry, List.length_replicate]
    · intro l layer _ hlayer
      rw [hempty entry hentry] at hlayer
      exact List.eq_of_mem_replicate (List.mem_of_getElem? hlayer)
  | succ count ih =>
    rw [List.range_succ, List.foldl_append]
    exact ringRound_keeps ih.1 ih.2

/-! ## 3. The graph -/

theorem mem_levelOwners : ownerId ∈ levelOwners entries level ↔
      ∃ entry ∈ entries, entry.ownerId = ownerId ∧ level ≤ entry.level := by
  unfold levelOwners
  rw [List.mem_map]
  constructor
  · intro h
    obtain ⟨entry, hentry, rfl⟩ := h
    obtain ⟨hmem, hlevel⟩ := List.mem_filter.mp hentry
    exact ⟨entry, hmem, rfl, of_decide_eq_true hlevel⟩
  · intro h
    obtain ⟨entry, hmem, rfl, hlevel⟩ := h
    exact ⟨entry, List.mem_filter.mpr ⟨hmem, decide_eq_true hlevel⟩, rfl⟩

theorem nextOwner_some {owners : List Int} {position : Nat} (hlt : position < owners.length) :
    owners[(position + 1) % owners.length]? = some (nextOwner owners position) := by
  have hmod : (position + 1) % owners.length < owners.length := Nat.mod_lt _ (by omega)
  rw [nextOwner, List.getD_eq_getElem?_getD, List.getElem?_eq_getElem hmod]
  rfl

theorem nextOwner_ne {owners : List Int} {position : Nat} (hnodup : owners.Nodup)
    (hmany : 1 < owners.length) (hposition : owners[position]? = some ownerId) :
    nextOwner owners position ≠ ownerId := by
  intro hsame
  obtain ⟨hlt, _⟩ := List.getElem?_eq_some_iff.mp hposition
  have hnext := nextOwner_some hlt
  rw [hsame, ← hposition] at hnext
  have hindex := (List.getElem?_inj (Nat.mod_lt _ (by omega)) hnodup).mp hnext
  rcases Nat.lt_or_ge (position + 1) owners.length with hmore | hlast
  · rw [Nat.mod_eq_of_lt hmore] at hindex
    omega
  · have hend : position + 1 = owners.length := by omega
    rw [hend, Nat.mod_self] at hindex
    omega

variable {result : List (VectorCacheEntry ν)} {count : Nat}

/-- What the loop leaves: the entries as they were, each layer a ring. -/
structure Ring (entries result : List (VectorCacheEntry ν)) (count : Nat) : Prop where
  distinct : (entries.map (·.ownerId)).Nodup
  same : result.map identity = entries.map identity
  ringed : ∀ entry ∈ result, Ringed (levelOwners entries) count entry
  levels : ∀ entry ∈ result, entry.level < count

theorem Ring.owners (h : Ring entries result count) :
    result.map (·.ownerId) = entries.map (·.ownerId) := by
  have hids := congrArg (List.map (·.1)) h.same
  rw [List.map_map, List.map_map] at hids
  exact hids

theorem Ring.resultDistinct (h : Ring entries result count) :
    (result.map (·.ownerId)).Nodup := h.owners ▸ h.distinct

theorem Ring.levelDistinct (h : Ring entries result count) (level : Nat) :
    (levelOwners entries level).Nodup :=
  h.distinct.sublist (List.filter_sublist.map _)

theorem Ring.present (h : Ring entries result count) (hmem : ownerId ∈ levelOwners entries level) :
    PresentOn (collectGraph result) level ownerId := by
  rw [← levelOwners_identity h.same] at hmem
  obtain ⟨entry, hentry, rfl, hlevel⟩ := mem_levelOwners.mp hmem
  exact ⟨entry, (collectGraph_some h.resultDistinct).mpr ⟨hentry, rfl⟩, hlevel⟩

theorem ring_wellLinked (h : Ring entries result count) : WellLinked 1 (collectGraph result) := by
  refine ⟨fun ownerId entry hentry => ?_, fun ownerId entry hentry => ?_,
    fun ownerId entry hentry level layer hlayer => ?_⟩
  · exact ((collectGraph_some h.resultDistinct).mp hentry).2
  · exact (h.ringed entry ((collectGraph_some h.resultDistinct).mp hentry).1).layers
  · obtain ⟨hmem, rfl⟩ := (collectGraph_some h.resultDistinct).mp hentry
    obtain ⟨hlt, _⟩ := List.getElem?_eq_some_iff.mp hlayer
    rw [(h.ringed entry hmem).layers] at hlt
    have hlevel : level < count := lt_of_le_of_lt (Nat.le_of_lt_succ hlt) (h.levels entry hmem)
    rcases (h.ringed entry hmem).below level layer hlevel hlayer with
      ⟨_, rfl⟩ | ⟨hmany, position, hposition, rfl⟩
    · exact ⟨fun _ hv => absurd hv List.not_mem_nil, fun _ hv => absurd hv List.not_mem_nil,
        Nat.zero_le _⟩
    · obtain ⟨hinside, _⟩ := List.getElem?_eq_some_iff.mp hposition
      refine ⟨fun v hv => ?_, fun v hv => ?_, ?_⟩
      · rw [List.mem_singleton.mp hv]
        exact nextOwner_ne (h.levelDistinct level) hmany hposition
      · rw [List.mem_singleton.mp hv]
        exact h.present (List.mem_of_getElem? (nextOwner_some hinside))
      · unfold degreeBound
        split <;> simp

theorem ring_reaches {owners : List Int} {links : Int → Int → Prop}
    (hlink : ∀ position ownerId, owners[position]? = some ownerId →
      links ownerId (nextOwner owners position)) {position : Nat} {a : Int}
    (ha : owners[position]? = some a) : ∀ (places : Nat) {b : Int},
      owners[(position + places) % owners.length]? = some b → ReflTransGen links a b
  | 0, b, hb => by
    obtain ⟨hlt, _⟩ := List.getElem?_eq_some_iff.mp ha
    rw [Nat.add_zero, Nat.mod_eq_of_lt hlt, ha] at hb
    cases hb
    exact .refl
  | places + 1, b, hb => by
    obtain ⟨hlt, _⟩ := List.getElem?_eq_some_iff.mp ha
    have hbefore : (position + places) % owners.length < owners.length := Nat.mod_lt _ (by omega)
    have hpath := ring_reaches hlink ha places (List.getElem?_eq_getElem hbefore)
    have hnext := nextOwner_some hbefore
    rw [Nat.mod_add_mod, Nat.add_assoc, hb] at hnext
    rw [Option.some_inj.mp hnext]
    exact hpath.tail (hlink _ _ (List.getElem?_eq_getElem hbefore))

theorem ring_strong (h : Ring entries result count) : ∀ a b : Int, a ∈ collectGraph result →
    b ∈ collectGraph result → Reaches (collectGraph result) a b := by
  intro a b ha hb
  have howner : ∀ ownerId, ownerId ∈ collectGraph result → ownerId ∈ levelOwners entries 0 := by
    intro ownerId hmem
    obtain ⟨entry, hentry⟩ := Option.isSome_iff_exists.mp
      (Std.ExtTreeMap.mem_iff_isSome_getElem?.mp hmem)
    obtain ⟨hresult, rfl⟩ := (collectGraph_some h.resultDistinct).mp hentry
    rw [← levelOwners_identity h.same]
    exact mem_levelOwners.mpr ⟨entry, hresult, rfl, Nat.zero_le _⟩
  obtain ⟨p, hp, hpa⟩ := List.getElem_of_mem (howner a ha)
  obtain ⟨q, hq, hqb⟩ := List.getElem_of_mem (howner b hb)
  have hpa : (levelOwners entries 0)[p]? = some a := by rw [List.getElem?_eq_getElem hp, hpa]
  have hqb : (levelOwners entries 0)[q]? = some b := by rw [List.getElem?_eq_getElem hq, hqb]
  rcases Nat.lt_or_ge 1 (levelOwners entries 0).length with hmany | halone
  · have hlink : ∀ position ownerId, (levelOwners entries 0)[position]? = some ownerId →
        nextOwner (levelOwners entries 0) position ∈ bottomLinks (collectGraph result) ownerId := by
      intro position ownerId hposition
      obtain ⟨entry, hentry, _⟩ := h.present (List.mem_of_getElem? hposition)
      obtain ⟨hmem, hid⟩ := (collectGraph_some h.resultDistinct).mp hentry
      obtain ⟨hzero, _⟩ := (ring_wellLinked h).levelZero
        (Std.ExtTreeMap.mem_iff_isSome_getElem?.mpr (by rw [hentry]; rfl))
      rw [levelZeroNeighbors, hentry, Option.bind_some, List.head?_eq_getElem?] at hzero
      have hcount : 0 < count := Nat.zero_lt_of_lt (h.levels entry hmem)
      rcases (h.ringed entry hmem).below 0 _ hcount hzero with
        ⟨hno, _⟩ | ⟨_, position', hposition', hlayer⟩
      · omega
      · rw [hid, ← hposition] at hposition'
        obtain ⟨hlt, _⟩ := List.getElem?_eq_some_iff.mp hposition
        have hsame : position = position' :=
          (List.getElem?_inj hlt (h.levelDistinct 0)).mp hposition'.symm
        rw [hlayer, hsame]
        exact List.mem_singleton_self _
    refine @ring_reaches _ (fun x y => y ∈ bottomLinks (collectGraph result) x) hlink _ _ hpa
      (q + (levelOwners entries 0).length - p) _ ?_
    rw [show p + (q + (levelOwners entries 0).length - p) = q + (levelOwners entries 0).length by
      omega, Nat.add_mod_right, Nat.mod_eq_of_lt hq]
    exact hqb
  · have hsame : p = q := by omega
    rw [hsame, hqb] at hpa
    cases hpa
    exact .refl

end Lithograph.Query.SemanticIndex
