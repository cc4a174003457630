/-
  File:      Lithograph/Library/Pages.lean
  Subject:   Reading a sorted map under changes a page at a time.

  Each source is read up to a limit. The page ends at the horizon, up to which both are known.

  * `scanAll_pageOf`: one source, read a page at a time.
-/
import Lithograph.Library.Overlay
import Lithograph.Library.Worklist

namespace Lithograph.Library

open Std

variable {K V : Type} [Ord K] [TransOrd K] [LawfulEqOrd K]

/-! ## 1. The loop of a page -/

/-- A page of a scan: its entries, and where the next page starts, if there is one. -/
structure Page (K V : Type) where
  items : List (K × V)
  next : Option K

/-- A key the scan has not passed. -/
def Beyond (after : Option K) (k : K) : Prop := ∀ a, after = some a → compare a k = .lt

instance (after : Option K) : DecidablePred (Beyond after) := fun k =>
  match after with
  | none => .isTrue fun _ h => nomatch h
  | some a => decidable_of_iff (compare a k = .lt) (by simp [Beyond])

/-- A key of which both sources are known. -/
def Within (horizon : Option K) (k : K) : Prop := ∀ h, horizon = some h → (compare k h).isLE

/-- The next rows of a source in order. -/
def sourcePage {α : Type} (limit : Nat) (after : Option K) (source : List (K × α)) : List (K × α) :=
  (source.filter fun e => Beyond after e.1).take limit

/-- The keys of two pages, in order. -/
def candidates {α β : Type} (page : List (K × α)) (page' : List (K × β)) : List K :=
  ((page.map Prod.fst ++ page'.map Prod.fst).foldl (fun keys k => keys.insert k ())
    (∅ : ExtTreeMap K Unit)).keys

/-- The key up to which a source is known that was read up to a limit: its last one, where the
    limit was reached. -/
def sourceEnd {α : Type} (limit : Nat) (source : List (K × α)) : Option K :=
  if source.length = limit then source.getLast?.map Prod.fst else none

/-- The key up to which both sources are known. -/
def scanHorizon : Option K → Option K → Option K
  | some a, some b => some (if (compare a b).isLE then a else b)
  | some a, none => some a
  | none, b => b

/-- The loop of a page over the keys of both sources: it stops at the horizon or when the page is
    full. -/
def takePage (limit : Nat) (horizon : Option K) (visible : K → Option V) :
    List K → List (K × V) → Option K → List (K × V) × Option K
  | [], items, consumed => (items, consumed)
  | k :: keys, items, consumed =>
    if (horizon.any fun h => compare k h == .gt) || items.length == limit then (items, consumed)
    else
      match visible k with
      | some v => takePage limit horizon visible keys (items ++ [(k, v)]) (some k)
      | none => takePage limit horizon visible keys items (some k)

/-- A page over the keys of both sources. -/
def mergePage [DecidableEq K] (limit : Nat) (after horizon : Option K) (visible : K → Option V)
    (keys : List K) : Page K V :=
  let taken := takePage limit horizon visible keys [] after
  { items := taken.1
    next := if (horizon.isSome || taken.1.length == limit) && taken.2 != after then taken.2
      else none }

/-- The pages of a scan, one after the other. -/
def scanAll (page : Option K → Page K V) : Nat → Option K → List (K × V)
  | 0, _ => []
  | fuel + 1, after =>
    match (page after).next with
    | none => (page after).items
    | some k => (page after).items ++ scanAll page fuel (some k)

/-- A page of some entries: all of those after its start and up to where the next page starts. -/
structure IsPage (entries : List (K × V)) (after : Option K) (p : Page K V) : Prop where
  sorted : p.items.Pairwise KeyLt
  mem : ∀ e, e ∈ p.items ↔ e ∈ entries ∧ Beyond after e.1 ∧ Within p.next e.1
  progress : ∀ k, p.next = some k → Beyond after k

omit [LawfulEqOrd K] [TransOrd K] in
/-- Where the loop stops. -/
theorem takePage_spec (limit : Nat) (horizon : Option K) (visible : K → Option V) (keys : List K) :
    ∀ (items : List (K × V)) (consumed : Option K), ∃ passed rest, keys = passed ++ rest ∧
      (takePage limit horizon visible keys items consumed).1 =
        items ++ passed.filterMap (fun k => (visible k).map fun v => (k, v)) ∧
      (takePage limit horizon visible keys items consumed).2 =
        (passed.getLast?.map some).getD consumed ∧
      (∀ k ∈ passed, ¬ horizon.any (fun h => compare k h == .gt)) ∧
      (rest = [] ∨ (∃ k ∈ rest.head?, horizon.any fun h => compare k h == .gt) ∨
        (takePage limit horizon visible keys items consumed).1.length = limit) := by
  induction keys with
  | nil =>
    intro items consumed
    exact ⟨[], [], rfl, by simp [takePage], rfl, by simp, Or.inl rfl⟩
  | cons k keys ih =>
    intro items consumed
    unfold takePage
    split
    · rename_i hstop
      refine ⟨[], k :: keys, rfl, by simp, rfl, by simp, Or.inr ?_⟩
      rcases Bool.or_eq_true_iff.mp hstop with hstop | hstop
      · exact Or.inl ⟨k, rfl, hstop⟩
      · exact Or.inr (by simpa using hstop)
    · rename_i hgo
      have hk : ¬ horizon.any (fun h => compare k h == .gt) := by
        intro h
        exact hgo (by rw [h, Bool.true_or])
      have hlast : ∀ passed : List K, ((k :: passed).getLast?.map some).getD consumed =
          (passed.getLast?.map some).getD (some k) := by
        intro passed
        cases passed with
        | nil => rfl
        | cons p passed =>
          simp [List.getLast?_cons_cons, List.getLast?_eq_some_getLast (List.cons_ne_nil p passed)]
      cases hv : visible k with
      | some v =>
        obtain ⟨passed, rest, hkeys, hitems, hconsumed, hwithin, hstop⟩ :=
          ih (items ++ [(k, v)]) (some k)
        refine ⟨k :: passed, rest, by rw [hkeys, List.cons_append], ?_, ?_, ?_, hstop⟩
        · simp only [hitems, List.filterMap_cons, hv, Option.map_some, List.append_assoc]
          rfl
        · rw [hconsumed, hlast]
        · intro j hj
          rcases List.mem_cons.mp hj with rfl | hj
          · exact hk
          · exact hwithin j hj
      | none =>
        obtain ⟨passed, rest, hkeys, hitems, hconsumed, hwithin, hstop⟩ := ih items (some k)
        refine ⟨k :: passed, rest, by rw [hkeys, List.cons_append], ?_, ?_, ?_, hstop⟩
        · simp only [hitems, List.filterMap_cons, hv, Option.map_none]
        · rw [hconsumed, hlast]
        · intro j hj
          rcases List.mem_cons.mp hj with rfl | hj
          · exact hk
          · exact hwithin j hj

omit [TransOrd K] [LawfulEqOrd K] in
theorem length_takePage (limit : Nat) (horizon : Option K) (visible : K → Option V)
    (keys : List K) : ∀ (items : List (K × V)) (consumed : Option K), items.length ≤ limit →
      (takePage limit horizon visible keys items consumed).1.length ≤ limit := by
  induction keys with
  | nil =>
    intro items consumed h
    exact h
  | cons k keys ih =>
    intro items consumed h
    unfold takePage
    split
    · exact h
    · rename_i hgo
      have hfull : items.length ≠ limit := by
        intro heq
        exact hgo (by rw [heq, beq_self_eq_true, Bool.or_true])
      split
      · refine ih _ _ ?_
        rw [List.length_append, List.length_singleton]
        omega
      · exact ih _ _ h

variable {k : K}

omit [TransOrd K] [LawfulEqOrd K] in
theorem within_iff {horizon : Option K} :
    Within horizon k ↔ ¬ horizon.any (fun h => compare k h == .gt) := by
  unfold Within
  cases horizon with
  | none => simp
  | some h =>
    simp only [Option.some.injEq, forall_eq', Option.any_some]
    cases compare k h <;> simp

/-- What a page needs of its sources: their keys in order, and all the keys there are up to the
    horizon. -/
structure PageSource (entries : List (K × V)) (after horizon : Option K) (visible : K → Option V)
    (keys : List K) : Prop where
  sorted : keys.Pairwise fun a b => compare a b = .lt
  beyond : ∀ k ∈ keys, Beyond after k
  visible : ∀ k ∈ keys, Within horizon k → ∀ v, visible k = some v ↔ (k, v) ∈ entries
  complete : ∀ e ∈ entries, Beyond after e.1 → Within horizon e.1 → e.1 ∈ keys
  reached : ∀ h, horizon = some h → ∃ k ∈ keys, Within horizon k

/-! ## 2. A page of a map -/

omit [LawfulEqOrd K] in
theorem mem_passed {passed rest : List K}
    (h : (passed ++ rest).Pairwise fun a b => compare a b = .lt) {k c : K}
    (hk : k ∈ passed ++ rest) (hc : c ∈ passed) (hle : (compare k c).isLE) : k ∈ passed := by
  rcases List.mem_append.mp hk with hk | hk
  · exact hk
  · have hlt := (List.pairwise_append.mp h).2.2 c hc k hk
    exact absurd (TransCmp.lt_of_lt_of_isLE hlt hle) (compare_lt_irrefl c)

variable {visible : K → Option V}

omit [Ord K] [TransOrd K] [LawfulEqOrd K] in
theorem mem_filterMap_visible {passed : List K} {e : K × V} :
    e ∈ passed.filterMap (fun k => (visible k).map fun v => (k, v)) ↔
      e.1 ∈ passed ∧ visible e.1 = some e.2 := by
  rw [List.mem_filterMap]
  constructor
  · rintro ⟨k, hk, he⟩
    cases hv : visible k with
    | none =>
      rw [hv] at he
      cases he
    | some v =>
      rw [hv] at he
      cases he
      exact ⟨hk, hv⟩
  · rintro ⟨hk, hv⟩
    exact ⟨e.1, hk, by rw [hv]; rfl⟩

variable {entries : List (K × V)} {after horizon : Option K}

omit [LawfulEqOrd K] in
theorem PageSource.head_within {tail : List K}
    (h : PageSource entries after horizon visible (k :: tail)) : Within horizon k := by
  intro hz hhz
  obtain ⟨j, hj, hw⟩ := h.reached hz hhz
  rcases List.mem_cons.mp hj with rfl | hj
  · exact hw hz hhz
  · have hlt := (List.pairwise_cons.mp h.sorted).1 j hj
    exact TransCmp.isLE_trans (Ordering.isLE_of_eq_lt hlt) (hw hz hhz)

omit [TransOrd K] [LawfulEqOrd K] in
theorem PageSource.nothing (h : PageSource entries after horizon visible []) (e : K × V)
    (he : e ∈ entries) : ¬ Beyond after e.1 := by
  intro hbeyond
  have hmem : e.1 ∈ ([] : List K) := by
    refine h.complete e he hbeyond fun hz hhz => ?_
    obtain ⟨j, hj, _⟩ := h.reached hz hhz
    cases hj
  cases hmem

variable {limit : Nat} {α : Type} {keys : List K}

/-- **A page over both sources is a page of the entries.** -/
theorem mergePage_isPage [DecidableEq K] (hlimit : 0 < limit)
    (h : PageSource entries after horizon visible keys) :
    IsPage entries after (mergePage limit after horizon visible keys) ∧
      ∀ k, (mergePage limit after horizon visible keys).next = some k → k ∈ keys := by
  obtain ⟨passed, rest, hkeys, hitems, hconsumed, hwithin, hstop⟩ :=
    takePage_spec limit horizon visible keys [] after
  rw [List.nil_append] at hitems
  have hsorted := h.sorted
  rw [hkeys] at hsorted
  have hsub : ∀ k ∈ passed, k ∈ keys := fun k hk => hkeys ▸ List.mem_append_left rest hk
  have hpage : mergePage limit after horizon visible keys =
      { items := passed.filterMap fun k => (visible k).map fun v => (k, v)
        next := if (horizon.isSome || (takePage limit horizon visible keys [] after).1.length ==
            limit) && (passed.getLast?.map some).getD after != after then
            (passed.getLast?.map some).getD after else none } := by
    unfold mergePage
    simp only [hitems, hconsumed]
  have hitemsSorted : (passed.filterMap fun k =>
      (visible k).map fun v => (k, v)).Pairwise KeyLt := by
    refine List.Pairwise.filterMap _ (fun a b hab e he e' he' => ?_)
      (List.pairwise_append.mp hsorted).1
    rw [Option.map_eq_some_iff] at he he'
    obtain ⟨v, _, rfl⟩ := he
    obtain ⟨v', _, rfl⟩ := he'
    exact hab
  have hvisible : ∀ k ∈ passed, ∀ v, visible k = some v ↔ (k, v) ∈ entries := fun k hk =>
    h.visible k (hsub k hk) (within_iff.mpr (hwithin k hk))
  rw [hpage]
  cases hlast : passed.getLast? with
  | none =>
    -- nothing was passed, so there was nothing to pass
    have hnil : passed = [] := List.getLast?_eq_none_iff.mp hlast
    subst hnil
    have hempty : keys = [] := by
      rw [List.nil_append] at hkeys
      rcases hstop with hrest | ⟨k, hk, hover⟩ | hfull
      · rw [hkeys, hrest]
      · cases rest with
        | nil => cases hk
        | cons r tail =>
          cases hk
          rw [hkeys] at h
          exact absurd hover (within_iff.mp h.head_within)
      · rw [hitems] at hfull
        exact absurd hfull (Nat.ne_of_lt hlimit)
    rw [hempty] at h
    refine ⟨⟨by simp, fun e => ?_, ?_⟩, ?_⟩
    · simp only [List.filterMap_nil, List.not_mem_nil, false_iff]
      rintro ⟨he, hbeyond, _⟩
      exact h.nothing e he hbeyond
    · intro k hk
      simp at hk
    · intro k hk
      simp at hk
  | some c =>
    have hc : c ∈ passed := List.mem_of_getLast? hlast
    have hcafter : some c ≠ after := by
      intro heq
      exact absurd (h.beyond c (hsub c hc) c heq.symm) (compare_lt_irrefl c)
    have hnext : (some c != after) = true := by simpa using hcafter
    -- the entries of the map up to the last key passed are those of the page
    have hupto : ∀ e : K × V, e ∈ entries → Beyond after e.1 → Within horizon e.1 →
        (compare e.1 c).isLE → e.1 ∈ passed := by
      intro e he hbeyond hw hle
      have hk := h.complete e he hbeyond hw
      rw [hkeys] at hk
      exact mem_passed hsorted hk hc hle
    have hlastLe : ∀ k ∈ passed, (compare k c).isLE := by
      intro k hk
      obtain ⟨front, hfront⟩ := List.getLast?_eq_some_iff.mp hlast
      have hpassed := (List.pairwise_append.mp hsorted).1
      rw [hfront] at hk hpassed
      rcases List.mem_append.mp hk with hk | hk
      · exact Ordering.isLE_of_eq_lt ((List.pairwise_append.mp hpassed).2.2 k hk c (by simp))
      · rw [List.mem_singleton.mp hk]
        have hself : compare c c = .eq := ReflCmp.compare_self
        rw [hself]
        rfl
    have hcwithin : Within horizon c := within_iff.mpr (hwithin c hc)
    simp only [Option.map_some, Option.getD_some, hnext, Bool.and_true]
    split
    · refine ⟨⟨hitemsSorted, fun e => ?_, ?_⟩, ?_⟩
      · rw [mem_filterMap_visible]
        constructor
        · rintro ⟨hk, hv⟩
          refine ⟨(hvisible e.1 hk e.2).mp hv, h.beyond _ (hsub _ hk), ?_⟩
          intro n hn
          cases hn
          exact hlastLe e.1 hk
        · rintro ⟨he, hbeyond, hw⟩
          have hle := hw c rfl
          have hk := hupto e he hbeyond (fun hz hhz =>
            TransCmp.isLE_trans hle (hcwithin hz hhz)) hle
          exact ⟨hk, (hvisible e.1 hk e.2).mpr he⟩
      · intro k hk
        cases hk
        exact h.beyond c (hsub c hc)
      · intro k hk
        cases hk
        exact hsub c hc
    · -- no horizon and a page that is not full: every key was passed
      rename_i hmore
      rw [Bool.or_eq_true, not_or] at hmore
      obtain ⟨hnohorizon, hnotfull⟩ := hmore
      have hhorizon : horizon = none := by
        cases horizon with
        | none => rfl
        | some hz => exact absurd rfl hnohorizon
      have hall : keys = passed := by
        rcases hstop with hrest | ⟨k, _, hover⟩ | hfull
        · rw [hkeys, hrest, List.append_nil]
        · rw [hhorizon] at hover
          cases hover
        · exact absurd (by simpa using hfull) hnotfull
      refine ⟨⟨hitemsSorted, fun e => ?_, ?_⟩, ?_⟩
      · rw [mem_filterMap_visible]
        constructor
        · rintro ⟨hk, hv⟩
          refine ⟨(hvisible e.1 hk e.2).mp hv, h.beyond _ (hsub _ hk), ?_⟩
          intro n hn
          cases hn
        · rintro ⟨he, hbeyond, _⟩
          have hk := h.complete e he hbeyond (by
            rw [hhorizon]
            intro _ hn
            cases hn)
          rw [hall] at hk
          exact ⟨hk, (hvisible e.1 hk e.2).mpr he⟩
      · intro k hk
        cases hk
      · intro k hk
        cases hk

omit [TransOrd K] [LawfulEqOrd K] in
theorem mergePage_next [DecidableEq K]
    (h : (mergePage limit after horizon visible keys).next = some k) :
    k ∈ keys := by
  obtain ⟨passed, rest, hkeys, _, hconsumed, _, _⟩ :=
    takePage_spec limit horizon visible keys [] after
  unfold mergePage at h
  simp only [hconsumed] at h
  split at h
  · rename_i hmoved
    cases hlast : passed.getLast? with
    | none =>
      rw [hlast] at hmoved
      simp at hmoved
    | some c =>
      rw [hlast] at h
      cases h
      rw [hkeys]
      exact List.mem_append_left rest (List.mem_of_getLast? hlast)
  · cases h

omit [LawfulEqOrd K] in
theorem length_mergePage [DecidableEq K] (hlimit : 0 < limit)
    (h : PageSource entries after horizon visible keys)
    (hnext : (mergePage limit after horizon visible keys).next = none) :
    (mergePage limit after horizon visible keys).items.length < limit := by
  obtain ⟨passed, rest, hkeys, hitems, hconsumed, _, _⟩ :=
    takePage_spec limit horizon visible keys [] after
  have hle := length_takePage limit horizon visible keys [] after (Nat.zero_le limit)
  refine Nat.lt_of_le_of_ne hle fun hfull => ?_
  unfold mergePage at hnext hfull
  simp only at hnext hfull
  cases hlast : passed.getLast? with
  | none =>
    rw [hitems, List.getLast?_eq_none_iff.mp hlast] at hfull
    exact absurd hfull (Nat.ne_of_lt hlimit)
  | some c =>
    have hc : c ∈ keys := hkeys ▸ List.mem_append_left rest (List.mem_of_getLast? hlast)
    have hne : some c ≠ after := fun heq =>
      compare_lt_irrefl c (h.beyond c hc c heq.symm)
    rw [hconsumed, hlast, hfull] at hnext
    simp [hne] at hnext

/-! ## 3. All pages -/

omit [LawfulEqOrd K] in
theorem IsPage.split (hsorted : entries.Pairwise KeyLt)
    {after : Option K} {p : Page K V} (h : IsPage entries after p) :
    entries.filter (fun e => Beyond after e.1) =
      p.items ++ p.next.elim [] fun k => entries.filter fun e => Beyond (some k) e.1 := by
  refine eq_of_sorted (hsorted.filter _) ?_ fun e => ?_
  · cases hnext : p.next with
    | none =>
      rw [Option.elim_none, List.append_nil]
      exact h.sorted
    | some k =>
      rw [Option.elim_some, List.pairwise_append]
      refine ⟨h.sorted, hsorted.filter _, fun e he e' he' => ?_⟩
      have hle := ((h.mem e).mp he).2.2 k hnext
      have hlt : Beyond (some k) e'.1 := by simpa using (List.mem_filter.mp he').2
      exact TransCmp.lt_of_isLE_of_lt hle (hlt k rfl)
  · rw [List.mem_filter, List.mem_append, h.mem, decide_eq_true_iff]
    cases hnext : p.next with
    | none =>
      constructor
      · intro he
        exact Or.inl ⟨he.1, he.2, fun _ hn => nomatch hn⟩
      · rintro (he | he)
        · exact ⟨he.1, he.2.1⟩
        · cases he
    | some k =>
      rw [Option.elim_some, List.mem_filter, decide_eq_true_iff]
      have hk := h.progress k hnext
      constructor
      · rintro ⟨he, hb⟩
        by_cases hle : (compare e.1 k).isLE
        · refine Or.inl ⟨he, hb, fun n hn => ?_⟩
          cases hn
          exact hle
        · refine Or.inr ⟨he, fun a ha => ?_⟩
          cases ha
          exact OrientedCmp.lt_of_not_isLE hle
      · rintro (he | ⟨he, hb⟩)
        · exact ⟨he.1, he.2.1⟩
        · exact ⟨he, fun a ha => TransCmp.lt_trans (hk a ha) (hb k rfl)⟩

omit [LawfulEqOrd K] in
/-- A next page has a key less to start at. -/
theorem countP_beyond_lt {after : Option K} {p : Page K V}
    (h : IsPage entries after p) (hnext : p.next = some k)
    (hk : k ∈ keys) : keys.countP (fun j => decide (Beyond (some k) j)) <
      keys.countP (fun j => decide (Beyond after j)) := by
  have hbeyond := h.progress k hnext
  refine countP_add_one_le (fun j _ hj => ?_) hk (by simpa using hbeyond) ?_
  · have hjk : Beyond (some k) j := by simpa using hj
    have hj' : Beyond after j := fun a ha => TransCmp.lt_trans (hbeyond a ha) (hjk k rfl)
    simpa using hj'
  · have hkk : ¬ Beyond (some k) k := fun hkk => compare_lt_irrefl k (hkk k rfl)
    simpa using hkk

omit [LawfulEqOrd K] in
/-- **The pages, one after the other, are the entries from behind the start**, each once, when there
is fuel. -/
theorem scanAll_eq (hsorted : entries.Pairwise KeyLt)
    {page : Option K → Page K V} (hpage : ∀ after, IsPage entries after (page after))
    (hkeys : ∀ after k, (page after).next = some k → k ∈ keys) :
    ∀ (fuel : Nat) (after : Option K), keys.countP (fun k => decide (Beyond after k)) < fuel →
      scanAll page fuel after = entries.filter fun e => Beyond after e.1 := by
  intro fuel
  induction fuel with
  | zero =>
    omega
  | succ fuel ih =>
    intro after hfuel
    rw [(hpage after).split hsorted]
    unfold scanAll
    cases hnext : (page after).next with
    | none => rw [Option.elim_none, List.append_nil]
    | some k =>
      have hless := countP_beyond_lt (hpage after) hnext (hkeys after k hnext)
      exact congrArg _ (ih (some k) (by omega))

/-! ## 4. Two sources, each read up to a limit -/

theorem candidates_spec [DecidableEq K] {β : Type} (page : List (K × α)) (page' : List (K × β)) :
    (candidates page page').Pairwise (fun a b => compare a b = .lt) ∧
      ∀ k, k ∈ candidates page page' ↔ (∃ a, (k, a) ∈ page) ∨ (∃ b, (k, b) ∈ page') := by
  constructor
  · exact ExtTreeMap.ordered_keys
  · intro k
    have hmem : ∀ (list : List K) (m : ExtTreeMap K Unit),
        (list.foldl (fun keys k => keys.insert k ()) m)[k]? =
          if k ∈ list then some () else m[k]? := by
      intro list
      induction list with
      | nil => simp
      | cons j list ih =>
        intro m
        rw [List.foldl_cons, ih, lookup_insert]
        by_cases hk : k ∈ list
        · simp [hk]
        · by_cases hj : k = j <;> simp [hk, hj]
    unfold candidates
    rw [ExtTreeMap.mem_keys, ExtTreeMap.mem_iff_isSome_getElem?, hmem]
    simp

omit [TransOrd K] [LawfulEqOrd K] in
theorem sourcePage_sorted {α : Type} {limit : Nat} {after : Option K} {source : List (K × α)}
    (h : source.Pairwise KeyLt) : (sourcePage limit after source).Pairwise KeyLt :=
  (h.filter _).sublist (List.take_sublist _ _)

omit [TransOrd K] [LawfulEqOrd K] in
theorem mem_sourcePage {α : Type} {limit : Nat} {after : Option K} {source : List (K × α)}
    {e : K × α} (h : e ∈ sourcePage limit after source) : e ∈ source ∧ Beyond after e.1 := by
  have hmem := List.mem_of_mem_take h
  rw [List.mem_filter] at hmem
  exact ⟨hmem.1, by simpa using hmem.2⟩

variable {source : List (K × α)}

omit [LawfulEqOrd K] in
theorem mem_sourcePage_of_within (hlimit : 0 < limit) {after : Option K}
    (hsorted : source.Pairwise KeyLt) {e : K × α} (he : e ∈ source) (hbeyond : Beyond after e.1)
    (hw : Within (sourceEnd limit (sourcePage limit after source)) e.1) :
    e ∈ sourcePage limit after source := by
  have hfilter : e ∈ source.filter fun e => Beyond after e.1 := by
    rw [List.mem_filter]
    exact ⟨he, by simpa using hbeyond⟩
  have hrest : (source.filter fun e => decide (Beyond after e.1)).Pairwise KeyLt :=
    hsorted.filter _
  unfold sourcePage at hw ⊢
  generalize (source.filter fun e => decide (Beyond after e.1)) = rows at hfilter hrest hw ⊢
  by_cases hfull : (rows.take limit).length = limit
  · have hsplit := List.take_append_drop limit rows
    rw [← hsplit] at hfilter
    rcases List.mem_append.mp hfilter with hin | hout
    · exact hin
    · -- a row that is left out is after the last one of the page
      unfold sourceEnd at hw
      rw [if_pos hfull] at hw
      cases hlast : (rows.take limit).getLast? with
      | none =>
        have hnil := List.getLast?_eq_none_iff.mp hlast
        rw [hnil] at hfull
        exact absurd hfull (Nat.ne_of_lt hlimit)
      | some last =>
        rw [hlast] at hw
        have hlt : KeyLt last e := by
          rw [← hsplit] at hrest
          exact (List.pairwise_append.mp hrest).2.2 last (List.mem_of_getLast? hlast) e hout
        exact absurd (TransCmp.lt_of_lt_of_isLE hlt (hw last.1 rfl)) (compare_lt_irrefl last.1)
  · have hshort : rows.length ≤ limit := by
      rw [List.length_take] at hfull
      omega
    rwa [List.take_of_length_le hshort]

omit [Ord K] [TransOrd K] [LawfulEqOrd K] in
theorem sourceEnd_some {page : List (K × α)} {h : K} (hend : sourceEnd limit page = some h) :
    ∃ a, (h, a) ∈ page := by
  unfold sourceEnd at hend
  split at hend
  · obtain ⟨e, he, rfl⟩ := Option.map_eq_some_iff.mp hend
    exact ⟨e.2, List.mem_of_getLast? he⟩
  · cases hend

omit [LawfulEqOrd K] in
/-- The horizon is an end of a source, not behind the other. -/
theorem scanHorizon_spec (a b : Option K) :
    (∀ k, Within (scanHorizon a b) k → Within a k ∧ Within b k) ∧
      ∀ h, scanHorizon a b = some h → a = some h ∨ b = some h := by
  cases a with
  | none =>
    refine ⟨fun k hk => ⟨?_, hk⟩, fun h hh => Or.inr hh⟩
    intro _ hn
    cases hn
  | some x =>
    cases b with
    | none =>
      refine ⟨fun k hk => ⟨hk, ?_⟩, fun h hh => Or.inl hh⟩
      intro _ hn
      cases hn
    | some y =>
      have hmin : scanHorizon (some x) (some y) = some (if (compare x y).isLE then x else y) := rfl
      rw [hmin]
      by_cases hxy : (compare x y).isLE
      · rw [if_pos hxy]
        refine ⟨fun k hk => ⟨hk, fun h hh => ?_⟩, fun h hh => Or.inl hh⟩
        cases hh
        exact TransCmp.isLE_trans (hk x rfl) hxy
      · rw [if_neg hxy]
        have hyx : (compare y x).isLE := Ordering.isLE_of_eq_lt (OrientedCmp.lt_of_not_isLE hxy)
        refine ⟨fun k hk => ⟨fun h hh => ?_, hk⟩, fun h hh => Or.inr hh⟩
        cases hh
        exact TransCmp.isLE_trans (hk y rfl) hyx

/-- **What two sources in order give to a page.** -/
theorem pageSource_of_sources [DecidableEq K] {β : Type} (hlimit : 0 < limit) {after : Option K}
    {source' : List (K × β)} (hsorted : source.Pairwise KeyLt)
    (hsorted' : source'.Pairwise KeyLt)
    (hentries : ∀ e ∈ entries, (∃ a, (e.1, a) ∈ source) ∨ (∃ b, (e.1, b) ∈ source'))
    (hvisible : ∀ k, Beyond after k →
      (∀ a, (k, a) ∈ source → (k, a) ∈ sourcePage limit after source) →
      (∀ b, (k, b) ∈ source' → (k, b) ∈ sourcePage limit after source') →
        ∀ v, visible k = some v ↔ (k, v) ∈ entries) : PageSource entries after
      (scanHorizon (sourceEnd limit (sourcePage limit after source))
        (sourceEnd limit (sourcePage limit after source')))
      visible (candidates (sourcePage limit after source) (sourcePage limit after source')) := by
  obtain ⟨hkeys, hmem⟩ := candidates_spec (sourcePage limit after source)
    (sourcePage limit after source')
  obtain ⟨hboth, hone⟩ := scanHorizon_spec (sourceEnd limit (sourcePage limit after source))
    (sourceEnd limit (sourcePage limit after source'))
  have hbeyond : ∀ k ∈ candidates (sourcePage limit after source)
      (sourcePage limit after source'), Beyond after k := by
    intro k hk
    rcases (hmem k).mp hk with ⟨a, ha⟩ | ⟨b, hb⟩
    · exact (mem_sourcePage ha).2
    · exact (mem_sourcePage hb).2
  constructor
  · exact hkeys
  · exact hbeyond
  · intro k hk hw
    obtain ⟨hw₁, hw₂⟩ := hboth k hw
    exact hvisible k (hbeyond k hk)
      (fun a ha => mem_sourcePage_of_within hlimit hsorted ha (hbeyond k hk) hw₁)
      (fun b hb => mem_sourcePage_of_within hlimit hsorted' hb (hbeyond k hk) hw₂)
  · intro e he hb hw
    obtain ⟨hw₁, hw₂⟩ := hboth e.1 hw
    rw [hmem]
    rcases hentries e he with ⟨a, ha⟩ | ⟨b, hb'⟩
    · exact Or.inl ⟨a, mem_sourcePage_of_within hlimit hsorted ha hb hw₁⟩
    · exact Or.inr ⟨b, mem_sourcePage_of_within hlimit hsorted' hb' hb hw₂⟩
  · intro h hh
    have hself : Within (scanHorizon (sourceEnd limit (sourcePage limit after source))
        (sourceEnd limit (sourcePage limit after source'))) h := by
      intro h' hh'
      rw [hh] at hh'
      cases hh'
      have hcmp : compare h h = .eq := ReflCmp.compare_self
      rw [hcmp]
      rfl
    refine ⟨h, ?_, hself⟩
    rw [hmem]
    rcases hone h hh with hend | hend
    · exact Or.inl (sourceEnd_some hend)
    · exact Or.inr (sourceEnd_some hend)

/-! ## 5. One source -/

/-- A page of one source: the next one starts behind its last row, if it has one. -/
def pageOf {α : Type} (limit : Nat) (source : List (K × α)) (after : Option K) : Page K α :=
  { items := sourcePage limit after source
    next := (sourcePage limit after source).getLast?.map Prod.fst }

omit [TransOrd K] in
theorem sorted_getLast {rows : List (K × α)} (h : rows.Pairwise KeyLt) {e last : K × α}
    (he : e ∈ rows) (hlast : rows.getLast? = some last) : (compare e.1 last.1).isLE := by
  have hrows : rows.dropLast ++ [last] = rows := by
    rw [List.dropLast_append_getLast? last hlast]
  rw [← hrows] at he h
  rcases List.mem_append.mp he with hin | hin
  · have hlt : compare e.1 last.1 = .lt :=
      (List.pairwise_append.mp h).2.2 e hin last (List.mem_singleton_self last)
    rw [hlt]
    rfl
  · have hself : compare last.1 last.1 = .eq := ReflCmp.compare_self
    rw [List.mem_singleton.mp hin, hself]
    rfl

theorem pageOf_isPage (hlimit : 0 < limit) (hsorted : source.Pairwise KeyLt) (after : Option K) :
    IsPage source after (pageOf limit source after) := by
  have hitems : (sourcePage limit after source).Pairwise KeyLt :=
    (hsorted.filter _).sublist (List.take_sublist _ _)
  refine ⟨hitems, fun e => ⟨fun he => ?_, fun he => ?_⟩, fun k hk => ?_⟩
  · obtain ⟨hsource, hbeyond⟩ := mem_sourcePage he
    refine ⟨hsource, hbeyond, fun h hh => ?_⟩
    obtain ⟨last, hlast, rfl⟩ := Option.map_eq_some_iff.mp hh
    exact sorted_getLast hitems he hlast
  · refine mem_sourcePage_of_within hlimit hsorted he.1 he.2.1 fun h hh => ?_
    unfold sourceEnd at hh
    split at hh
    · exact he.2.2 h hh
    · cases hh
  · obtain ⟨last, hlast, rfl⟩ := Option.map_eq_some_iff.mp hk
    exact (mem_sourcePage (List.mem_of_getLast? hlast)).2

/-- **The pages of a source, one after the other, are the source.** -/
theorem scanAll_pageOf {α : Type} {limit : Nat} (hlimit : 0 < limit) {source : List (K × α)}
    (hsorted : source.Pairwise KeyLt) :
    scanAll (pageOf limit source) (source.length + 1) none = source := by
  have hkeys : ∀ after k, (pageOf limit source after).next = some k → k ∈ source.map Prod.fst := by
    intro after k hk
    obtain ⟨last, hlast, rfl⟩ := Option.map_eq_some_iff.mp hk
    exact List.mem_map_of_mem (mem_sourcePage (List.mem_of_getLast? hlast)).1
  have hcount := List.countP_le_length (l := source.map Prod.fst)
    (p := fun k => decide (Beyond none k))
  rw [List.length_map] at hcount
  rw [scanAll_eq hsorted (pageOf_isPage hlimit hsorted) hkeys _ none (by omega),
    List.filter_eq_self]
  simp [Beyond]

end Lithograph.Library
