/-
  File:      Lithograph/Library/Frontier.lean
  Subject:   A loop that visits, round after round, every item of a frontier for results and next
             items.

  `walk` runs the rounds `0 ..= maximum` and stops early where no item is left; its fuel is the
  number of rounds an observer waits for.

  * `walk_keeps_running`: where every visit leaves a next item, only the maximum ends the loop.
-/
import Lithograph.Library.TreeMap

namespace Lithograph.Library

section Frontier

variable {σ τ ε : Type}

/-- One round: the items in order, their results and their next items one after the other. -/
def roundOf (visit : σ → Except ε (List τ × List σ)) : List σ → Except ε (List τ × List σ)
  | [] => .ok ([], [])
  | s :: rest => do
    let first ← visit s
    let others ← roundOf visit rest
    pure (first.1 ++ others.1, first.2 ++ others.2)

/-- The loop from round `depth` on. -/
def walk (running : ε) (maximum : Nat) (visit : Nat → σ → Except ε (List τ × List σ)) :
    Nat → Nat → List σ → List τ → Except ε (List τ)
  | 0, _, _, _ => .error running
  | fuel + 1, depth, frontier, output => do
    let round ← roundOf (visit depth) frontier
    if round.2 = [] ∨ depth = maximum then pure (output ++ round.1)
    else walk running maximum visit fuel (depth + 1) round.2 (output ++ round.1)

theorem roundOf_error {visit : σ → Except ε (List τ × List σ)} {e : ε} :
    ∀ {frontier : List σ}, roundOf visit frontier = .error e → ∃ s ∈ frontier, visit s = .error e
  | [], h => by cases h
  | s :: rest, h => by
    cases hs : visit s with
    | error e' =>
      simp only [roundOf, hs, bind, Except.bind] at h
      cases h
      exact ⟨s, .head _, hs⟩
    | ok first =>
      cases hr : roundOf visit rest with
      | ok others =>
        simp only [roundOf, hs, hr, bind, Except.bind, pure, Except.pure] at h
        cases h
      | error e' =>
        simp only [roundOf, hs, hr, bind, Except.bind] at h
        cases h
        obtain ⟨s', hs', he⟩ := roundOf_error hr
        exact ⟨s', .tail _ hs', he⟩

theorem roundOf_mem {visit : σ → Except ε (List τ × List σ)} :
    ∀ {frontier : List σ} {round : List τ × List σ}, roundOf visit frontier = .ok round →
      (∀ t ∈ round.1, ∃ s ∈ frontier, ∃ r, visit s = .ok r ∧ t ∈ r.1) ∧
        ∀ s' ∈ round.2, ∃ s ∈ frontier, ∃ r, visit s = .ok r ∧ s' ∈ r.2
  | [], round, h => by
    cases h
    exact ⟨fun _ ht => absurd ht List.not_mem_nil, fun _ hs => absurd hs List.not_mem_nil⟩
  | s :: rest, round, h => by
    unfold roundOf at h
    obtain ⟨first, hfirst, h⟩ := bind_eq_ok.mp h
    obtain ⟨others, hothers, h⟩ := bind_eq_ok.mp h
    cases h
    obtain ⟨hres, hnext⟩ := roundOf_mem hothers
    refine ⟨fun t ht => ?_, fun s' hs' => ?_⟩
    · rcases List.mem_append.mp ht with ht | ht
      · exact ⟨s, .head _, first, hfirst, ht⟩
      · obtain ⟨s₁, hs₁, r, hr, ht⟩ := hres t ht
        exact ⟨s₁, .tail _ hs₁, r, hr, ht⟩
    · rcases List.mem_append.mp hs' with hs' | hs'
      · exact ⟨s, .head _, first, hfirst, hs'⟩
      · obtain ⟨s₁, hs₁, r, hr, hs'⟩ := hnext s' hs'
        exact ⟨s₁, .tail _ hs₁, r, hr, hs'⟩

/-- What the visits of a round left is kept. -/
theorem roundOf_keeps {visit : σ → Except ε (List τ × List σ)} :
    ∀ {frontier : List σ} {round : List τ × List σ}, roundOf visit frontier = .ok round →
      ∀ s ∈ frontier, ∃ r, visit s = .ok r ∧ r.1 ⊆ round.1 ∧ r.2 ⊆ round.2
  | [], _, _, s, hs => absurd hs List.not_mem_nil
  | s₀ :: rest, round, h, s, hs => by
    unfold roundOf at h
    obtain ⟨first, hfirst, h⟩ := bind_eq_ok.mp h
    obtain ⟨others, hothers, h⟩ := bind_eq_ok.mp h
    cases h
    rcases List.mem_cons.mp hs with rfl | hs
    · exact ⟨first, hfirst, List.subset_append_left .., List.subset_append_left ..⟩
    · obtain ⟨r, hr, hres, hkeep⟩ := roundOf_keeps hothers s hs
      exact ⟨r, hr, List.subset_append_of_subset_right _ hres,
        List.subset_append_of_subset_right _ hkeep⟩

variable {frontier : List σ} {fuel depth : Nat} {output : List τ}

/-- A round shows `running`, or goes through with what such visits leave. -/
theorem roundOf_goes {visit : σ → Except ε (List τ × List σ)} {running : ε}
    {P : List τ × List σ → Prop}
    (hvisit : ∀ s ∈ frontier, visit s = .error running ∨ ∃ r, visit s = .ok r ∧ P r) :
    roundOf visit frontier = .error running ∨ ∃ round, roundOf visit frontier = .ok round ∧
      (∀ t ∈ round.1, ∃ r, P r ∧ t ∈ r.1) ∧ (∀ s' ∈ round.2, ∃ r, P r ∧ s' ∈ r.2) ∧
        (frontier ≠ [] → ∃ r, P r ∧ r.1 ⊆ round.1 ∧ r.2 ⊆ round.2) := by
  have hgone : ∀ s ∈ frontier, ∀ r, visit s = .ok r → P r := by
    intro s hs r hr
    rcases hvisit s hs with h | ⟨r', hr', hP⟩
    · rw [h] at hr
      cases hr
    · rw [hr'] at hr
      cases hr
      exact hP
  cases hround : roundOf visit frontier with
  | error e =>
    obtain ⟨s, hs, he⟩ := roundOf_error hround
    rcases hvisit s hs with h | ⟨r, hr, _⟩
    · rw [h] at he
      exact .inl he.symm
    · rw [hr] at he
      cases he
  | ok round =>
    obtain ⟨hres, hnext⟩ := roundOf_mem hround
    refine .inr ⟨round, rfl, fun t ht => ?_, fun s' hs' => ?_, fun hne => ?_⟩
    · obtain ⟨s, hs, r, hr, hmem⟩ := hres t ht
      exact ⟨r, hgone s hs r hr, hmem⟩
    · obtain ⟨s, hs, r, hr, hmem⟩ := hnext s' hs'
      exact ⟨r, hgone s hs r hr, hmem⟩
    · obtain ⟨s, hs⟩ := List.exists_mem_of_ne_nil _ hne
      obtain ⟨r, hr, hkept⟩ := roundOf_keeps hround s hs
      exact ⟨r, hgone s hs r hr, hkept⟩

variable {running : ε} {maximum : Nat} {visit : Nat → σ → Except ε (List τ × List σ)}

/-- A loop stopped in a round, at an item, or ran out of fuel. -/
theorem walk_step {e : ε}
    (h : walk running maximum visit (fuel + 1) depth frontier output = .error e) :
    (∃ s ∈ frontier, visit depth s = .error e) ∨
      ∃ round, roundOf (visit depth) frontier = .ok round ∧ round.2 ≠ [] ∧ depth ≠ maximum ∧
        walk running maximum visit fuel (depth + 1) round.2 (output ++ round.1) = .error e := by
  unfold walk at h
  cases hr : roundOf (visit depth) frontier with
  | error e' =>
    rw [hr] at h
    cases h
    exact .inl (roundOf_error hr)
  | ok round =>
    rw [hr] at h
    refine .inr ⟨round, rfl, ?_⟩
    simp only [bind, Except.bind] at h
    split at h
    · cases h
    · rename_i hgo
      exact ⟨fun e' => hgo (.inl e'), fun e' => hgo (.inr e'), h⟩

theorem walk_nil (hfuel : 0 < fuel) :
    walk running maximum visit fuel depth [] output ≠ .error running := by
  obtain ⟨fuel, rfl⟩ := Nat.exists_eq_succ_of_ne_zero hfuel.ne'
  simp [walk, roundOf, bind, Except.bind, pure, Except.pure]

/-- **A measure bounds the rounds**, where every visit lowers the measure of the items it leaves. -/
theorem walk_finishes {μ : σ → Nat} (hvisit : ∀ depth s, visit depth s ≠ .error running)
    (hμ : ∀ depth s r, visit depth s = .ok r → ∀ s' ∈ r.2, μ s' < μ s) :
    ∀ {fuel depth : Nat} {frontier : List σ} {output : List τ}, 0 < fuel →
      (∀ s ∈ frontier, μ s < fuel) →
      walk running maximum visit fuel depth frontier output ≠ .error running
  | 0, _, _, _, hpos, _ => absurd hpos (Nat.lt_irrefl 0)
  | fuel + 1, depth, frontier, output, _, hfuel => by
    intro h
    rcases walk_step h with ⟨s, _, hs⟩ | ⟨round, hround, hne, _, hrest⟩
    · exact hvisit depth s hs
    · have hnext : ∀ s' ∈ round.2, μ s' < fuel := by
        intro s' hs'
        obtain ⟨s, hs, r, hr, hmem⟩ := (roundOf_mem hround).2 s' hs'
        have := hμ depth s r hr s' hmem
        have := hfuel s hs
        omega
      obtain ⟨s', hs'⟩ := List.exists_mem_of_ne_nil _ hne
      have hpos : 0 < fuel := Nat.lt_of_le_of_lt (Nat.zero_le _) (hnext s' hs')
      exact walk_finishes hvisit hμ hpos hnext hrest

/-- **The maximum bounds the rounds.** -/
theorem walk_bounded (hvisit : ∀ depth s, visit depth s ≠ .error running) :
    ∀ {fuel depth : Nat} {frontier : List σ} {output : List τ}, depth ≤ maximum →
      maximum < depth + fuel → walk running maximum visit fuel depth frontier output ≠ .error running
  | 0, _, _, _, hle, hlt => absurd hlt (by omega)
  | fuel + 1, depth, frontier, output, hle, hlt => by
    intro h
    rcases walk_step h with ⟨s, _, hs⟩ | ⟨round, _, _, hne, hrest⟩
    · exact hvisit depth s hs
    · exact walk_bounded hvisit (by omega) (by omega) hrest

/-- **What holds of the items round by round holds of the results.** -/
theorem walk_results {I : Nat → σ → Prop} {O : τ → Prop}
    (hvisit : ∀ depth s r, I depth s → visit depth s = .ok r →
      (∀ t ∈ r.1, O t) ∧ ∀ s' ∈ r.2, I (depth + 1) s') :
    ∀ {fuel depth : Nat} {frontier : List σ} {output result : List τ}, (∀ s ∈ frontier, I depth s) →
      (∀ t ∈ output, O t) → walk running maximum visit fuel depth frontier output = .ok result →
      ∀ t ∈ result, O t
  | 0, _, _, _, _, _, _, h => by cases h
  | fuel + 1, depth, frontier, output, result, hI, hO, h => by
    unfold walk at h
    obtain ⟨round, hround, h⟩ := bind_eq_ok.mp h
    obtain ⟨hres, hnext⟩ := roundOf_mem hround
    have hO' : ∀ t ∈ output ++ round.1, O t := by
      intro t ht
      rcases List.mem_append.mp ht with ht | ht
      · exact hO t ht
      · obtain ⟨s, hs, r, hr, ht⟩ := hres t ht
        exact (hvisit depth s r (hI s hs) hr).1 t ht
    split at h
    · cases h
      exact hO'
    · refine walk_results hvisit (fun s' hs' => ?_) hO' h
      obtain ⟨s, hs, r, hr, hs'⟩ := hnext s' hs'
      exact (hvisit depth s r (hI s hs) hr).2 s' hs'

/-- A computation of a list shows `running`, or goes through with items that satisfy `P`, one at
    least where it `must`. -/
def Goes {α : Type} (running : ε) (x : Except ε (List α)) (P : α → Prop) (must : Prop) : Prop :=
  x = .error running ∨ ∃ out, x = .ok out ∧ (∀ a ∈ out, P a) ∧ (must → out ≠ [])

theorem Goes.mono {α : Type} {running : ε} {x : Except ε (List α)} {P P' : α → Prop}
    {must must' : Prop} (h : Goes running x P must) (hP : ∀ a, P a → P' a)
    (hmust : must' → must) : Goes running x P' must' := by
  rcases h with h | ⟨out, h, hall, hne⟩
  · exact .inl h
  · exact .inr ⟨out, h, fun a ha => hP a (hall a ha), fun hm => hne (hmust hm)⟩

theorem Goes.bind {α β : Type} {running : ε} {x : Except ε (List α)}
    {f : List α → Except ε (List β)} {P : α → Prop} {Q : β → Prop} {must must' : Prop}
    (h : Goes running x P must)
    (hf : ∀ out, (∀ a ∈ out, P a) → (must → out ≠ []) → Goes running (f out) Q must') :
    Goes running (x >>= f) Q must' := by
  rcases h with h | ⟨out, h, hall, hne⟩
  · exact .inl (by rw [h]; rfl)
  · rw [h]
    exact hf out hall hne

/-- **A walk goes where its visits go**: an item is completed from the round `minimum` on, and idle
visits carry a frontier there. -/
theorem walk_goes (I : σ → Prop) (O : τ → Prop) (minimum : Nat) (idle : Prop)
    (hvisit : ∀ depth s, I s → visit depth s = .error running ∨
      ∃ r, visit depth s = .ok r ∧ (∀ t ∈ r.1, O t) ∧ (∀ s' ∈ r.2, I s') ∧
        (minimum ≤ depth → r.1 ≠ []) ∧ (idle → depth < maximum → r.2 ≠ [])) :
    ∀ {fuel depth : Nat} {frontier : List σ} {output : List τ}, depth ≤ maximum →
      (∀ s ∈ frontier, I s) → (∀ t ∈ output, O t) →
      Goes running (walk running maximum visit fuel depth frontier output) O
        (output ≠ [] ∨ frontier ≠ [] ∧ (minimum ≤ depth ∨ idle ∧ minimum ≤ maximum))
  | 0, _, _, _, _, _, _ => .inl rfl
  | fuel + 1, depth, frontier, output, hdepth, hI, hO => by
    unfold walk
    rcases roundOf_goes fun s hs => hvisit depth s (hI s hs) with
      h | ⟨round, hround, hres, hnext, hdue⟩
    · exact .inl (by rw [h]; rfl)
    rw [hround]
    have hO' : ∀ t ∈ output ++ round.1, O t := by
      intro t ht
      rcases List.mem_append.mp ht with ht | ht
      · exact hO t ht
      · obtain ⟨r, hr, hmem⟩ := hres t ht
        exact hr.1 t hmem
    have hI' : ∀ s' ∈ round.2, I s' := by
      intro s' hs'
      obtain ⟨r, hr, hmem⟩ := hnext s' hs'
      exact hr.2.1 s' hmem
    have hdone : frontier ≠ [] → minimum ≤ depth → round.1 ≠ [] := by
      intro hne hle hnil
      obtain ⟨r, hr, hkeep, _⟩ := hdue hne
      exact hr.2.2.1 hle (List.subset_nil.mp (hnil ▸ hkeep))
    have hgo : frontier ≠ [] → idle → depth < maximum → round.2 ≠ [] := by
      intro hne hidle hlt hnil
      obtain ⟨r, hr, _, hkeep⟩ := hdue hne
      exact hr.2.2.2 hidle hlt (List.subset_nil.mp (hnil ▸ hkeep))
    simp only [bind, Except.bind, pure, Except.pure]
    split
    · rename_i hend
      refine .inr ⟨_, rfl, hO', fun hmust hnil => ?_⟩
      obtain ⟨hout, hres'⟩ := List.append_eq_nil_iff.mp hnil
      rcases hmust with h | ⟨hne, hle | ⟨hidle, hle⟩⟩
      · exact h hout
      · exact hdone hne hle hres'
      · rcases hend with hend | rfl
        · by_cases hlt : depth < maximum
          · exact hgo hne hidle hlt hend
          · exact hdone hne (by omega) hres'
        · exact hdone hne hle hres'
    · rename_i hend
      have hne2 : round.2 ≠ [] := fun h => hend (.inl h)
      have hlt : depth < maximum := by
        rcases Nat.lt_or_ge depth maximum with h | h
        · exact h
        · exact absurd (.inr (by omega)) hend
      have hrest : Goes running
          (walk running maximum visit fuel (depth + 1) round.2 (output ++ round.1)) O _ :=
        walk_goes I O minimum idle hvisit hlt hI' hO'
      rcases hrest with h | ⟨out, h, hall, hmust⟩
      · exact .inl h
      · refine .inr ⟨out, h, hall, fun hm => hmust ?_⟩
        rcases hm with h | ⟨hne, hle | ⟨hidle, hle⟩⟩
        · exact .inl fun hnil => h (List.append_eq_nil_iff.mp hnil).1
        · exact .inl fun hnil => hdone hne hle (List.append_eq_nil_iff.mp hnil).2
        · exact .inr ⟨hne2, .inr ⟨hidle, hle⟩⟩

/-- **Only the maximum ends the loop** where every visit shows `running` or leaves an item. -/
theorem walk_keeps_running {I : σ → Prop}
    (hvisit : ∀ depth s, depth < maximum → I s → visit depth s = .error running ∨
      ∃ r, visit depth s = .ok r ∧ r.2 ≠ [] ∧ ∀ s' ∈ r.2, I s') :
    ∀ {fuel depth : Nat} {frontier : List σ} {output : List τ}, depth + fuel ≤ maximum →
      frontier ≠ [] → (∀ s ∈ frontier, I s) →
      walk running maximum visit fuel depth frontier output = .error running
  | 0, _, _, _, _, _, _ => rfl
  | fuel + 1, depth, frontier, output, hle, hne, hI => by
    have hlt : depth < maximum := by omega
    unfold walk
    rcases roundOf_goes fun s hs => hvisit depth s hlt (hI s hs) with
      h | ⟨round, hround, _, hnext, hdue⟩
    · rw [h]
      rfl
    obtain ⟨r, hr, _, hkeep⟩ := hdue hne
    have hne' : round.2 ≠ [] := fun hnil => hr.1 (List.subset_nil.mp (hnil ▸ hkeep))
    have hI' : ∀ s' ∈ round.2, I s' := by
      intro s' hs'
      obtain ⟨r, hr, hmem⟩ := hnext s' hs'
      exact hr.2 s' hmem
    rw [hround]
    simp only [bind, Except.bind, hne', false_or, if_neg (Nat.ne_of_lt hlt)]
    exact walk_keeps_running hvisit (by omega) hne' hI'

theorem walk_running_first
    (hne : frontier ≠ []) (hvisit : ∀ s ∈ frontier, visit depth s = .error running) :
    walk running maximum visit fuel depth frontier output = .error running := by
  cases fuel with
  | zero => rfl
  | succ fuel =>
    cases frontier with
    | nil => exact absurd rfl hne
    | cons s rest =>
    simp only [walk, roundOf, hvisit s List.mem_cons_self, bind, Except.bind]

end Frontier

end Lithograph.Library
