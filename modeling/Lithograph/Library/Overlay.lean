/-
  File:      Lithograph/Library/Overlay.lean
  Subject:   A sorted map under changes: the map they make, and reading it without making it.

  * `mergeChanges_toList`: one pass over both sources gives the entries of that map, in order.
-/
import Lithograph.Library.TreeMap
import Mathlib.Data.List.Sort

namespace Lithograph.Library

open Std

variable {K V : Type} [Ord K] [TransOrd K] [LawfulEqOrd K]

/-! ## 1. The map under the changes -/

/-- One change of one key. -/
def change (m : ExtTreeMap K V) (k : K) : Option V → ExtTreeMap K V
  | some v => m.insert k v
  | none => m.erase k

/-- The map after the changes. -/
def patch (base : ExtTreeMap K V) (changes : ExtTreeMap K (Option V)) : ExtTreeMap K V :=
  changes.foldl change base

section Lookup

variable [DecidableEq K]

/-- **At one key, the change counts where there is one.** -/
theorem getElem?_patch (base : ExtTreeMap K V) (changes : ExtTreeMap K (Option V)) (k : K) :
    (patch base changes)[k]? = changes[k]?.getD base[k]? := by
  have hstep : ∀ (m : ExtTreeMap K V) (j : K) (c : Option V), changes[j]? = some c →
      ∀ i, (change m j c)[i]? = if i = j then c else m[i]? := by
    intro m j c _ i
    cases c with
    | none => exact lookup_erase m j i
    | some v => exact lookup_insert m j i v
  have hlook := foldl_lookup (fun (m : ExtTreeMap K V) j => m[j]?)
    (fun _ (c : Option V) _ => c) (s := base) hstep k
  refine hlook.trans ?_
  cases changes[k]? <;> rfl

/-- **What is there after changes**: what was there and is not taken away, or what is put there. -/
theorem exists_patch {D : Type} (base : ExtTreeMap K V) (changes : ExtTreeMap K D)
    (value : D → Option V) (p : K → V → Prop)
    (hsame : ∀ (k : K) (v : V) (d : D) v', base[k]? = some v → changes[k]? = some d →
      value d = some v' →
      (p k v ↔ p k v')) :
    (∃ (k : K) (v : V), p k v ∧ (patch base (changes.map fun _ (d : D) => value d))[k]? = some v) ↔
      (∃ (k : K) (v : V), p k v ∧ base[k]? = some v ∧
        ∀ d : D, changes[k]? = some d → (value d).isSome) ∨
        ∃ (k : K) (d : D) (v : V), changes[k]? = some d ∧ value d = some v ∧ p k v := by
  constructor
  · rintro ⟨k, v, hp, hv⟩
    rw [getElem?_patch, ExtTreeMap.getElem?_map] at hv
    cases hd : changes[k]? with
    | none =>
      rw [hd] at hv
      exact Or.inl ⟨k, v, hp, hv, fun d hd' => by rw [hd] at hd'; cases hd'⟩
    | some d =>
      rw [hd] at hv
      exact Or.inr ⟨k, d, v, hd, hv, hp⟩
  · rintro (⟨k, v, hp, hv, hkept⟩ | ⟨k, d, v, hd, hv, hp⟩)
    · cases hd : changes[k]? with
      | none =>
        refine ⟨k, v, hp, ?_⟩
        rw [getElem?_patch, ExtTreeMap.getElem?_map, hd]
        exact hv
      | some d =>
        obtain ⟨v', hv'⟩ := Option.isSome_iff_exists.mp (hkept d hd)
        refine ⟨k, v', (hsame k v d v' hv hd hv').mp hp, ?_⟩
        rw [getElem?_patch, ExtTreeMap.getElem?_map, hd]
        exact hv'
    · refine ⟨k, v, hp, ?_⟩
      rw [getElem?_patch, ExtTreeMap.getElem?_map, hd]
      exact hv

end Lookup

/-! ## 2. Sorted sources -/

/-- The order of entries: by their keys. -/
def KeyLt {α β : Type} (a : K × α) (b : K × β) : Prop := compare a.1 b.1 = .lt

omit [LawfulEqOrd K] in
theorem keyLt_trans {α β γ : Type} {a : K × α} {b : K × β} {c : K × γ} (h : KeyLt a b)
    (h' : KeyLt b c) : KeyLt a c := TransCmp.lt_trans h h'

omit [LawfulEqOrd K] in
theorem compare_lt_irrefl (k : K) : compare k k ≠ .lt := by
  have hself : compare k k = .eq := ReflCmp.compare_self
  rw [hself]
  intro h
  cases h

omit [LawfulEqOrd K] in
theorem eq_of_sorted {l l' : List (K × V)} (h : l.Pairwise KeyLt) (h' : l'.Pairwise KeyLt)
    (hmem : ∀ e, e ∈ l ↔ e ∈ l') : l = l' := by
  have : Std.Irrefl (KeyLt : K × V → K × V → Prop) := ⟨fun a => compare_lt_irrefl a.1⟩
  have : Std.Antisymm (KeyLt : K × V → K × V → Prop) :=
    ⟨fun a b hab hba => absurd (keyLt_trans hab hba) (compare_lt_irrefl a.1)⟩
  exact List.Pairwise.eq_of_mem_iff h h' hmem

omit [LawfulEqOrd K] in
theorem sorted_toList (m : ExtTreeMap K V) : m.toList.Pairwise KeyLt :=
  ExtTreeMap.ordered_keys_toList

variable {l : List (K × V)} {k : K} {e : K × V} {changes : List (K × Option V)}

omit [LawfulEqOrd K] in
theorem sorted_unique (h : l.Pairwise KeyLt) {v v' : V}
    (hv : (k, v) ∈ l) (hv' : (k, v') ∈ l) : v = v' := by
  induction l with
  | nil => cases hv
  | cons e l ih =>
    obtain ⟨hhead, htail⟩ := List.pairwise_cons.mp h
    rcases List.mem_cons.mp hv with heq | hin
    · rcases List.mem_cons.mp hv' with heq' | hin'
      · exact congrArg Prod.snd (heq.trans heq'.symm)
      · have hlt := hhead _ hin'
        rw [← heq] at hlt
        exact absurd hlt (compare_lt_irrefl k)
    · rcases List.mem_cons.mp hv' with heq' | hin'
      · have hlt := hhead _ hin
        rw [← heq'] at hlt
        exact absurd hlt (compare_lt_irrefl k)
      · exact ih htail hin hin'

theorem find?_key [BEq K] [LawfulBEq K] (h : l.Pairwise KeyLt) :
    l.find? (fun e => e.1 == k) = some e ↔ e ∈ l ∧ e.1 = k := by
  constructor
  · intro he
    exact ⟨List.mem_of_find?_eq_some he, by simpa using List.find?_some he⟩
  · rintro ⟨he, rfl⟩
    cases hfind : l.find? (fun d => d.1 == e.1) with
    | none =>
      have hnone := List.find?_eq_none.mp hfind e he
      simp at hnone
    | some d =>
      have hd : d.1 = e.1 := by simpa using List.find?_some hfind
      have hdm : (e.1, d.2) ∈ l := by
        rw [← hd]
        exact List.mem_of_find?_eq_some hfind
      have hv : d.2 = e.2 := sorted_unique h hdm he
      exact congrArg some (Prod.ext hd hv)

theorem find?_value [BEq K] [LawfulBEq K] (h : l.Pairwise KeyLt) {v : V} :
    (l.find? fun e => e.1 == k).map Prod.snd = some v ↔ (k, v) ∈ l := by
  rw [Option.map_eq_some_iff]
  constructor
  · rintro ⟨e, he, rfl⟩
    obtain ⟨hmem, rfl⟩ := (find?_key h).mp he
    exact hmem
  · intro hmem
    exact ⟨(k, v), (find?_key h).mpr ⟨hmem, rfl⟩, rfl⟩

theorem find?_key_none [BEq K] [LawfulBEq K] :
    l.find? (fun e => e.1 == k) = none ↔ ∀ v, (k, v) ∉ l := by
  rw [List.find?_eq_none]
  constructor
  · intro hnone v hv
    have := hnone _ hv
    simp at this
  · intro hnone e he heq
    have hk : e.1 = k := by simpa using heq
    exact hnone e.2 (hk ▸ he)

theorem getElem?_foldl_insertIf [DecidableEq K] {α : Type} (p : α → Bool) (key : α → K)
    (value : α → V) {rows : List α} (hdistinct : rows.Pairwise fun a b => key a ≠ key b)
    {acc : ExtTreeMap K V} {v : V} :
    (rows.foldl (fun m a => if p a then m.insert (key a) (value a) else m) acc)[k]? = some v ↔
      (∃ a ∈ rows, p a = true ∧ key a = k ∧ value a = v) ∨
        (acc[k]? = some v ∧ ∀ a ∈ rows, p a = true → key a ≠ k) := by
  induction rows generalizing acc with
  | nil => simp
  | cons a rows ih =>
    obtain ⟨hhead, htail⟩ := List.pairwise_cons.mp hdistinct
    rw [List.foldl_cons, ih htail]
    by_cases hp : p a = true
    · rw [if_pos hp, lookup_insert]
      by_cases hk : k = key a
      · rw [if_pos hk]
        constructor
        · rintro (⟨b, hb, h⟩ | ⟨hv, _⟩)
          · exact Or.inl ⟨b, .tail _ hb, h⟩
          · exact Or.inl ⟨a, .head _, hp, hk.symm, Option.some.inj hv⟩
        · rintro (⟨b, hb, hpb, hkb, hv⟩ | ⟨_, hnone⟩)
          · rcases List.mem_cons.mp hb with rfl | hb
            · refine Or.inr ⟨congrArg some hv, fun c hc _ hkc => ?_⟩
              exact hhead c hc (hkb.trans hkc.symm)
            · exact Or.inl ⟨b, hb, hpb, hkb, hv⟩
          · exact absurd hk.symm (hnone a (.head _) hp)
      · rw [if_neg hk]
        constructor
        · rintro (⟨b, hb, h⟩ | ⟨hv, hnone⟩)
          · exact Or.inl ⟨b, .tail _ hb, h⟩
          · refine Or.inr ⟨hv, fun b hb hpb hkb => ?_⟩
            rcases List.mem_cons.mp hb with rfl | hb
            · exact hk hkb.symm
            · exact hnone b hb hpb hkb
        · rintro (⟨b, hb, hpb, hkb, hv⟩ | ⟨hv, hnone⟩)
          · rcases List.mem_cons.mp hb with rfl | hb
            · exact absurd hkb.symm hk
            · exact Or.inl ⟨b, hb, hpb, hkb, hv⟩
          · exact Or.inr ⟨hv, fun b hb => hnone b (.tail _ hb)⟩
    · rw [if_neg hp]
      constructor
      · rintro (⟨b, hb, h⟩ | ⟨hv, hnone⟩)
        · exact Or.inl ⟨b, .tail _ hb, h⟩
        · refine Or.inr ⟨hv, fun b hb hpb => ?_⟩
          rcases List.mem_cons.mp hb with rfl | hb
          · exact absurd hpb hp
          · exact hnone b hb hpb
      · rintro (⟨b, hb, hpb, h⟩ | ⟨hv, hnone⟩)
        · rcases List.mem_cons.mp hb with rfl | hb
          · exact absurd hpb hp
          · exact Or.inl ⟨b, hb, hpb, h⟩
        · exact Or.inr ⟨hv, fun b hb => hnone b (.tail _ hb)⟩

omit [LawfulEqOrd K] in
theorem size_foldl_insertIf {α : Type} (p : α → Bool) (key : α → K) (value : α → V) :
    ∀ (rows : List α) (acc : ExtTreeMap K V),
      (rows.foldl (fun m a => if p a then m.insert (key a) (value a) else m) acc).size ≤
        acc.size + rows.length := by
  intro rows
  induction rows with
  | nil => exact fun acc => Nat.le_refl _
  | cons a rows ih =>
    intro acc
    rw [List.foldl_cons, List.length_cons]
    refine Nat.le_trans (ih _) ?_
    split
    · have := ExtTreeMap.size_insert_le (t := acc) (k := key a) (v := value a)
      omega
    · omega

/-! ## 3. One pass over both sources -/

/-- The entry a change leaves, where it leaves one. -/
def emit (c : K × Option V) : List (K × V) :=
  match c.2 with
  | some v => [(c.1, v)]
  | none => []

/-- The changes up to the key of a row, with the row unless one is at its key; and the changes left.
    -/
def mergeBefore (row : K × V) : List (K × Option V) → List (K × V) × List (K × Option V)
  | [] => ([row], [])
  | c :: changes =>
    match compare c.1 row.1 with
    | .gt => ([row], c :: changes)
    | .eq => (emit c, changes)
    | .lt => (emit c ++ (mergeBefore row changes).1, (mergeBefore row changes).2)

/-- The rows under the changes, in one pass. -/
def mergeChanges : List (K × V) → List (K × Option V) → List (K × V)
  | [], changes => changes.flatMap emit
  | row :: rows, changes =>
    (mergeBefore row changes).1 ++ mergeChanges rows (mergeBefore row changes).2

omit [Ord K] [TransOrd K] [LawfulEqOrd K] in
theorem mem_emit {c : K × Option V} : e ∈ emit c ↔ c = (e.1, some e.2) := by
  obtain ⟨k, v⟩ := e
  obtain ⟨k', v'⟩ := c
  cases v' with
  | none => simp [emit]
  | some v' =>
    simp only [emit, List.mem_singleton, Prod.mk.injEq, Option.some.injEq]
    exact ⟨fun h => ⟨h.1.symm, h.2.symm⟩, fun h => ⟨h.1.symm, h.2.symm⟩⟩

omit [Ord K] [TransOrd K] [LawfulEqOrd K] in
theorem mem_flatMap_emit : e ∈ changes.flatMap emit ↔ (e.1, some e.2) ∈ changes := by
  rw [List.mem_flatMap]
  constructor
  · rintro ⟨c, hc, he⟩
    rw [mem_emit] at he
    exact he ▸ hc
  · intro h
    exact ⟨_, h, mem_emit.mpr rfl⟩

omit [TransOrd K] [LawfulEqOrd K] in
theorem sorted_emit (c : K × Option V) : (emit c).Pairwise KeyLt := by
  unfold emit
  split
  · exact List.pairwise_singleton _ _
  · exact List.Pairwise.nil

omit [TransOrd K] [LawfulEqOrd K] in
theorem sorted_flatMap_emit (h : changes.Pairwise KeyLt) :
    (changes.flatMap emit).Pairwise KeyLt := by
  induction changes with
  | nil => exact List.Pairwise.nil
  | cons c changes ih =>
    obtain ⟨hhead, htail⟩ := List.pairwise_cons.mp h
    rw [List.flatMap_cons, List.pairwise_append]
    refine ⟨sorted_emit c, ih htail, fun e he e' he' => ?_⟩
    rw [mem_emit] at he
    rw [mem_flatMap_emit] at he'
    have hlt := hhead _ he'
    rw [he] at hlt
    exact hlt

/-- What one row takes from the changes. -/
theorem mergeBefore_spec (row : K × V) (h : changes.Pairwise KeyLt) :
    (∀ c, c ∈ (mergeBefore row changes).2 ↔ c ∈ changes ∧ KeyLt row c) ∧
    (mergeBefore row changes).2.Pairwise KeyLt ∧
    (mergeBefore row changes).1.Pairwise KeyLt ∧
    ∀ e, e ∈ (mergeBefore row changes).1 ↔
      ((e.1, some e.2) ∈ changes ∧ ¬ KeyLt row e) ∨ (e = row ∧ ∀ c, (row.1, c) ∉ changes) := by
  induction changes with
  | nil =>
    refine ⟨fun c => ?_, List.Pairwise.nil, List.pairwise_singleton _ _, fun e => ?_⟩
    · simp [mergeBefore]
    · simp [mergeBefore]
  | cons c changes ih =>
    obtain ⟨hhead, htail⟩ := List.pairwise_cons.mp h
    obtain ⟨ih₁, ih₂, ih₃, ih₄⟩ := ih htail
    unfold mergeBefore
    cases hc : compare c.1 row.1 with
    | gt =>
      -- every change is after the row
      have hafter : ∀ d ∈ c :: changes, KeyLt row d := by
        intro d hd
        have hrow : KeyLt row c := OrientedCmp.lt_of_gt hc
        rcases List.mem_cons.mp hd with rfl | hd
        · exact hrow
        · exact keyLt_trans hrow (hhead d hd)
      refine ⟨fun d => ⟨fun hd => ⟨hd, hafter d hd⟩, fun hd => hd.1⟩, h,
        List.pairwise_singleton _ _, fun e => ?_⟩
      rw [List.mem_singleton]
      constructor
      · intro he
        refine Or.inr ⟨he, fun d hd => ?_⟩
        exact compare_lt_irrefl _ (hafter _ hd)
      · rintro (⟨he, hnot⟩ | ⟨he, _⟩)
        · exact absurd (hafter _ he) hnot
        · exact he
    | eq =>
      have hkey : c.1 = row.1 := LawfulEqCmp.eq_of_compare hc
      have hafter : ∀ d ∈ changes, KeyLt row d := by
        intro d hd
        have := hhead d hd
        unfold KeyLt at this ⊢
        rwa [hkey] at this
      refine ⟨fun d => ?_, htail, sorted_emit c, fun e => ?_⟩
      · constructor
        · intro hd
          exact ⟨.tail _ hd, hafter d hd⟩
        · rintro ⟨hd, hlt⟩
          rcases List.mem_cons.mp hd with rfl | hd
          · unfold KeyLt at hlt
            rw [hkey] at hlt
            exact absurd hlt (compare_lt_irrefl _)
          · exact hd
      · rw [mem_emit]
        constructor
        · intro he
          refine Or.inl ⟨he ▸ (.head _), ?_⟩
          unfold KeyLt
          have hk : e.1 = row.1 := by rw [← hkey, he]
          rw [hk]
          exact compare_lt_irrefl _
        · rintro (⟨he, hnot⟩ | ⟨_, hnone⟩)
          · rcases List.mem_cons.mp he with he | he
            · exact he.symm
            · exact absurd (hafter _ he) hnot
          · refine absurd ?_ (hnone c.2)
            rw [← hkey]
            exact .head _
    | lt =>
      have hcr : ¬ KeyLt row c := fun hlt =>
        compare_lt_irrefl _ (keyLt_trans (a := c) (b := row) (c := c) hc hlt)
      refine ⟨fun d => ?_, ih₂, ?_, fun e => ?_⟩
      · rw [ih₁]
        constructor
        · intro hd
          exact ⟨.tail _ hd.1, hd.2⟩
        · rintro ⟨hd, hlt⟩
          rcases List.mem_cons.mp hd with rfl | hd
          · exact absurd hlt hcr
          · exact ⟨hd, hlt⟩
      · rw [List.pairwise_append]
        refine ⟨sorted_emit c, ih₃, fun e he e' he' => ?_⟩
        rw [mem_emit] at he
        have hek : e.1 = c.1 := by rw [he]
        unfold KeyLt
        rw [hek]
        rcases (ih₄ e').mp he' with ⟨he', _⟩ | ⟨rfl, _⟩
        · exact hhead _ he'
        · exact hc
      · rw [List.mem_append, mem_emit, ih₄]
        constructor
        · rintro (he | ⟨he, hnot⟩ | ⟨he, hnone⟩)
          · refine Or.inl ⟨he ▸ (.head _), ?_⟩
            unfold KeyLt at hcr ⊢
            rwa [show e.1 = c.1 by rw [he]]
          · exact Or.inl ⟨.tail _ he, hnot⟩
          · refine Or.inr ⟨he, fun d hd => ?_⟩
            rcases List.mem_cons.mp hd with hd | hd
            · rw [← hd] at hc
              exact compare_lt_irrefl _ hc
            · exact hnone d hd
        · rintro (⟨he, hnot⟩ | ⟨he, hnone⟩)
          · rcases List.mem_cons.mp he with he | he
            · exact Or.inl he.symm
            · exact Or.inr (Or.inl ⟨he, hnot⟩)
          · exact Or.inr (Or.inr ⟨he, fun d hd => hnone d (.tail _ hd)⟩)

/-- **The entries of the rows under the changes**, in order. -/
theorem mergeChanges_spec {rows : List (K × V)}
    (hrows : rows.Pairwise KeyLt) (hchanges : changes.Pairwise KeyLt) :
    (mergeChanges rows changes).Pairwise KeyLt ∧
      ∀ e, e ∈ mergeChanges rows changes ↔
        (e.1, some e.2) ∈ changes ∨ (e ∈ rows ∧ ∀ c, (e.1, c) ∉ changes) := by
  induction rows generalizing changes with
  | nil =>
    refine ⟨sorted_flatMap_emit hchanges, fun e => ?_⟩
    unfold mergeChanges
    rw [mem_flatMap_emit]
    simp
  | cons row rows ih =>
    obtain ⟨hhead, htail⟩ := List.pairwise_cons.mp hrows
    obtain ⟨hrest, hrestSorted, hout, hmem⟩ := mergeBefore_spec row hchanges
    obtain ⟨hsorted, hih⟩ := ih htail hrestSorted
    unfold mergeChanges
    -- what the first row gives is before what the others give
    have hlate : ∀ e ∈ mergeChanges rows (mergeBefore row changes).2, KeyLt row e := by
      intro e he
      rcases (hih e).mp he with he | ⟨he, _⟩
      · exact ((hrest _).mp he).2
      · exact hhead e he
    have hearly : ∀ e ∈ (mergeBefore row changes).1, ¬ KeyLt row e := by
      intro e he
      rcases (hmem e).mp he with ⟨_, hnot⟩ | ⟨rfl, _⟩
      · exact hnot
      · exact compare_lt_irrefl _
    refine ⟨?_, fun e => ?_⟩
    · rw [List.pairwise_append]
      refine ⟨hout, hsorted, fun e he e' he' => ?_⟩
      have hle : (compare e.1 row.1).isLE := by
        cases hcmp : compare e.1 row.1 with
        | gt => exact absurd (OrientedCmp.lt_of_gt hcmp) (hearly e he)
        | eq => rfl
        | lt => rfl
      exact TransCmp.lt_of_isLE_of_lt hle (hlate e' he')
    · rw [List.mem_append, hmem, hih]
      constructor
      · rintro ((⟨he, _⟩ | ⟨rfl, hnone⟩) | he | ⟨he, hnone⟩)
        · exact Or.inl he
        · exact Or.inr ⟨.head _, hnone⟩
        · exact Or.inl ((hrest _).mp he).1
        · refine Or.inr ⟨.tail _ he, fun c hc => hnone c ?_⟩
          exact (hrest _).mpr ⟨hc, hhead e he⟩
      · rintro (he | ⟨he, hnone⟩)
        · by_cases hlt : KeyLt row e
          · exact Or.inr (Or.inl ((hrest _).mpr ⟨he, hlt⟩))
          · exact Or.inl (Or.inl ⟨he, hlt⟩)
        · rcases List.mem_cons.mp he with rfl | he
          · exact Or.inl (Or.inr ⟨rfl, hnone⟩)
          · exact Or.inr (Or.inr ⟨he, fun c hc => hnone c ((hrest _).mp hc).1⟩)

/-- **One pass over both sources reads the map under the changes.** -/
theorem mergeChanges_toList [DecidableEq K] (base : ExtTreeMap K V)
    (changes : ExtTreeMap K (Option V)) :
    mergeChanges base.toList changes.toList = (patch base changes).toList := by
  obtain ⟨hsorted, hmem⟩ := mergeChanges_spec (sorted_toList base) (sorted_toList changes)
  refine eq_of_sorted hsorted (sorted_toList _) fun e => ?_
  rw [hmem, ExtTreeMap.mem_toList_iff_getElem?_eq_some, ExtTreeMap.mem_toList_iff_getElem?_eq_some,
    ExtTreeMap.mem_toList_iff_getElem?_eq_some, getElem?_patch]
  cases hc : changes[e.1]? with
  | none =>
    constructor
    · rintro (h | ⟨h, _⟩)
      · cases h
      · exact h
    · intro h
      refine Or.inr ⟨h, fun c => not_mem_toList hc c⟩
  | some c =>
    constructor
    · rintro (h | ⟨_, h⟩)
      · exact Option.some.inj h
      · exact absurd (mem_of_lookup hc) (h c)
    · intro h
      exact Or.inl (congrArg some h)

theorem mergeChanges_filter [DecidableEq K] (base : ExtTreeMap K V)
    (changes : ExtTreeMap K (Option V)) (p : K → Bool) :
    mergeChanges (base.toList.filter fun e => p e.1) (changes.toList.filter fun e => p e.1) =
      (patch base changes).toList.filter fun e => p e.1 := by
  obtain ⟨hsorted, hmem⟩ := mergeChanges_spec ((sorted_toList base).filter fun e => p e.1)
    ((sorted_toList changes).filter fun e => p e.1)
  refine eq_of_sorted hsorted ((sorted_toList _).filter _) fun e => ?_
  rw [hmem, ← mergeChanges_toList, List.mem_filter, List.mem_filter, List.mem_filter,
    (mergeChanges_spec (sorted_toList base) (sorted_toList changes)).2]
  simp only [List.mem_filter]
  constructor
  · rintro (⟨h, hp⟩ | ⟨⟨h, hp⟩, hnone⟩)
    · exact ⟨Or.inl h, hp⟩
    · exact ⟨Or.inr ⟨h, fun c hc => hnone c ⟨hc, hp⟩⟩, hp⟩
  · rintro ⟨h | ⟨h, hnone⟩, hp⟩
    · exact Or.inl ⟨h, hp⟩
    · exact Or.inr ⟨⟨h, hp⟩, fun c hc => hnone c hc.1⟩

end Lithograph.Library
