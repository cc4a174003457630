/-
  File:      Lithograph/Library/PageRuns.lean
  Subject:   Runs of pages, some of which may be wrong.

  * **`scanAll_iff`**: a run is right just where each of its pages is.
-/
import Lithograph.Library.Pages

namespace Lithograph.Library

open Std

variable {K V : Type} [Ord K] [TransOrd K] [LawfulEqOrd K]

/-- Where the pages of a run start. -/
inductive Reached (page : Option K → Page K V) : Option K → Prop where
  | start : Reached page none
  | next {after : Option K} {k : K} (hreached : Reached page after)
      (hnext : (page after).next = some k) : Reached page (some k)

/-- A run that goes forward: a page lies behind its start and not behind its continuation. -/
structure Forward (page : Option K → Page K V) (keys : List K) : Prop where
  behind : ∀ after, ∀ e ∈ (page after).items, Beyond after e.1 ∧ Within (page after).next e.1
  progress : ∀ after k, (page after).next = some k → Beyond after k ∧ k ∈ keys

section

variable {entries : List (K × V)} {page : Option K → Page K V} {keys : List K} {after : Option K}

omit [Ord K] [TransOrd K] [LawfulEqOrd K] in
theorem scanAll_last (h : (page after).next = none) (fuel : Nat) :
    scanAll page (fuel + 1) after = (page after).items := by
  rw [scanAll, h]

omit [Ord K] [TransOrd K] [LawfulEqOrd K] in
theorem scanAll_next {k : K} (h : (page after).next = some k) (fuel : Nat) :
    scanAll page (fuel + 1) after = (page after).items ++ scanAll page fuel (some k) := by
  rw [scanAll, h]

omit [LawfulEqOrd K] in
/-- **The run from a page gives the entries from there on.** -/
theorem scanAll_reached (hsorted : entries.Pairwise KeyLt)
    (hpage : ∀ after, Reached page after → IsPage entries after (page after))
    (hkeys : ∀ after k, (page after).next = some k → k ∈ keys) :
    ∀ (fuel : Nat) (after : Option K), Reached page after →
      keys.countP (fun k => decide (Beyond after k)) < fuel →
        scanAll page fuel after = entries.filter fun e => Beyond after e.1 := by
  intro fuel
  induction fuel with
  | zero =>
    omega
  | succ fuel ih =>
    intro after hreached hfuel
    have hhere := hpage after hreached
    rw [hhere.split hsorted]
    cases hnext : (page after).next with
    | none => rw [scanAll_last hnext, Option.elim_none, List.append_nil]
    | some k =>
      have hless := countP_beyond_lt hhere hnext (hkeys after k hnext)
      rw [scanAll_next hnext, Option.elim_some]
      exact congrArg _ (ih (some k) (hreached.next hnext) (by omega))

omit [LawfulEqOrd K] in
theorem beyond_trans {k j : K} (h : Beyond after k) (hj : Beyond (some k) j) :
    Beyond after j := fun a ha => TransCmp.lt_trans (h a ha) (hj k rfl)

omit [LawfulEqOrd K] in
theorem not_beyond_of_within {next : Option K} {k j : K} (hnext : next = some k)
    (h : Within next j) : ¬ Beyond (some k) j := fun hbeyond =>
  compare_lt_irrefl k (TransCmp.lt_of_lt_of_isLE (hbeyond k rfl) (h k hnext))

omit [LawfulEqOrd K] in
theorem beyond_of_mem_scanAll (hforward : Forward page keys) : ∀ (fuel : Nat) (after : Option K),
    ∀ e ∈ scanAll page fuel after, Beyond after e.1 := by
  intro fuel
  induction fuel with
  | zero =>
    intro after e he
    exact (List.not_mem_nil he).elim
  | succ fuel ih =>
    intro after e he
    cases hnext : (page after).next with
    | none =>
      rw [scanAll_last hnext] at he
      exact (hforward.behind after e he).1
    | some k =>
      rw [scanAll_next hnext] at he
      obtain he | he := List.mem_append.mp he
      · exact (hforward.behind after e he).1
      · exact beyond_trans (hforward.progress after k hnext).1 (ih (some k) e he)

omit [LawfulEqOrd K] in
/-- **Where the run from a page gives the entries, so do the page and the run from the next.** -/
theorem isPage_of_scanAll (hsorted : entries.Pairwise KeyLt) (hforward : Forward page keys)
    {rounds : Nat}
    (h : ∀ fuel, rounds ≤ fuel →
      scanAll page fuel after = entries.filter fun e => Beyond after e.1) :
    IsPage entries after (page after) ∧ ∀ k, (page after).next = some k → ∀ fuel, rounds ≤ fuel →
      scanAll page fuel (some k) = entries.filter fun e => Beyond (some k) e.1 := by
  have hone := fun fuel hfuel => h (fuel + 1) (Nat.le_succ_of_le hfuel)
  have hfiltered : (entries.filter fun e => Beyond after e.1).Pairwise KeyLt := hsorted.filter _
  cases hnext : (page after).next with
  | none =>
    have hitems := hone rounds (Nat.le_refl _)
    rw [scanAll_last hnext] at hitems
    refine ⟨⟨hitems ▸ hfiltered, fun e => ?_, (hforward.progress after · · |>.1)⟩,
      fun k hk => absurd hk.symm (Option.some_ne_none k)⟩
    rw [hitems, List.mem_filter, decide_eq_true_iff, hnext]
    exact and_congr_right fun _ =>
      (and_iff_left fun k hn => absurd hn.symm (Option.some_ne_none k)).symm
  | some k =>
    have hprogress := (hforward.progress after k hnext).1
    have hrest := fun fuel => beyond_of_mem_scanAll hforward fuel (some k)
    have hwithin : ∀ e ∈ (page after).items, ¬ Beyond (some k) e.1 := fun e he =>
      not_beyond_of_within hnext (hforward.behind after e he).2
    constructor
    · have hitems := hone rounds (Nat.le_refl _)
      rw [scanAll_next hnext] at hitems
      have hsplit := hitems ▸ hfiltered
      refine ⟨(List.pairwise_append.mp hsplit).1, fun e => ?_, (hforward.progress after · · |>.1)⟩
      have hmem : e ∈ entries.filter (fun e => Beyond after e.1) ↔
          e ∈ (page after).items ∨ e ∈ scanAll page rounds (some k) := by
        rw [← hitems]
        exact List.mem_append
      rw [List.mem_filter, decide_eq_true_iff] at hmem
      constructor
      · intro he
        exact ⟨(hmem.mpr (Or.inl he)).1, (hforward.behind after e he)⟩
      · intro he
        obtain ⟨hin, hbeyond, hle⟩ := he
        refine (hmem.mp ⟨hin, hbeyond⟩).resolve_right fun hlater => ?_
        exact not_beyond_of_within hnext hle (hrest rounds e hlater)
    · intro j hj fuel hfuel
      obtain rfl := Option.some.inj hj
      have hitems := hone fuel hfuel
      rw [scanAll_next hnext] at hitems
      -- the items of the page are those that the next start has passed
      have hfilter := congrArg (List.filter fun e => decide (Beyond (some k) e.1)) hitems
      rw [List.filter_append, List.filter_eq_nil_iff.mpr (by simpa using hwithin), List.nil_append,
        List.filter_eq_self.mpr (by simpa using hrest fuel), List.filter_filter] at hfilter
      rw [hfilter]
      refine List.filter_congr fun e _ => ?_
      rw [Bool.and_eq_left_iff_imp, decide_eq_true_iff, decide_eq_true_iff]
      exact beyond_trans hprogress

omit [LawfulEqOrd K] in
/-- **A run that goes forward gives the entries just where its pages do.** -/
theorem scanAll_iff (hsorted : entries.Pairwise KeyLt) (hforward : Forward page keys) :
    (∃ rounds, ∀ fuel, rounds ≤ fuel → scanAll page fuel none = entries) ↔
      ∀ after, Reached page after → IsPage entries after (page after) := by
  have hall : entries.filter (fun e => Beyond none e.1) = entries := by
    simp [Beyond]
  constructor
  · intro h
    obtain ⟨rounds, hrounds⟩ := h
    have hruns : ∀ after, Reached page after → ∀ fuel, rounds ≤ fuel →
        scanAll page fuel after = entries.filter fun e => Beyond after e.1 := by
      intro after hreached
      induction hreached with
      | start =>
        rw [hall]
        exact hrounds
      | next _ hnext ih => exact (isPage_of_scanAll hsorted hforward ih).2 _ hnext
    exact fun after hreached => (isPage_of_scanAll hsorted hforward (hruns after hreached)).1
  · intro h
    refine ⟨keys.length + 1, fun fuel hfuel => ?_⟩
    have hcount := List.countP_le_length (l := keys) (p := fun k => decide (Beyond none k))
    rw [scanAll_reached hsorted h (fun after k hk => (hforward.progress after k hk).2) fuel none
      Reached.start (by omega), hall]

end

/-- A page whose entries are looked at one by one. -/
def Page.filter (p : K → Bool) (page : Page K V) : Page K V :=
  { page with items := page.items.filter fun e => p e.1 }

omit [Ord K] [TransOrd K] [LawfulEqOrd K] in
theorem scanAll_filter (p : K → Bool) (page : Option K → Page K V) : ∀ (fuel : Nat)
    (after : Option K), scanAll (fun after => (page after).filter p) fuel after =
      (scanAll page fuel after).filter fun e => p e.1
  | 0, _ => rfl
  | fuel + 1, after => by
    cases hnext : (page after).next with
    | none =>
      rw [scanAll_last hnext]
      exact @scanAll_last K V (fun after => (page after).filter p) after hnext fuel
    | some k =>
      rw [scanAll_next hnext, List.filter_append, ← scanAll_filter p page fuel (some k)]
      exact @scanAll_next K V (fun after => (page after).filter p) after k hnext fuel

omit [TransOrd K] [LawfulEqOrd K] in
theorem Forward.filter {page : Option K → Page K V} {keys : List K} (h : Forward page keys)
    (p : K → Bool) : Forward (fun after => (page after).filter p) keys :=
  ⟨fun after e he => h.behind after e (List.mem_filter.mp he).1, h.progress⟩

end Lithograph.Library
