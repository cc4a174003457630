/-
  File:      Lithograph/Library/Verdict.lean
  Subject:   Checks that decide a condition: they pass where it holds and refuse where it does not.

  * `DecidesTo.foldlM`: a loop of such checks decides the condition on every item.
-/
import Lithograph.Library.TreeMap

namespace Lithograph.Library

/-! ## 1. Checks -/

variable {ε : Type} {refusal : ε → Prop} {check check' : Except ε Unit} {p q : Prop}

/-- **The check passes where `p` holds, and refuses where it does not.** -/
def Decides (refusal : ε → Prop) (check : Except ε Unit) (p : Prop) : Prop :=
  (p ∧ check = .ok ()) ∨ (¬ p ∧ ∃ e, refusal e ∧ check = .error e)

theorem Decides.congr (h : Decides refusal check p) (hpq : p ↔ q) : Decides refusal check q := by
  unfold Decides
  rw [← hpq]
  exact h

theorem decides_pass (hp : p) : Decides refusal (.ok ()) p := .inl ⟨hp, rfl⟩

theorem Decides.seq (h : Decides refusal check p) (h' : p → Decides refusal check' q) :
    Decides refusal (check >>= fun _ => check') (p ∧ q) := by
  rcases h with ⟨hp, rfl⟩ | ⟨hp, e, hrefusal, rfl⟩
  · exact (h' hp).congr ⟨fun hq => ⟨hp, hq⟩, fun h => h.2⟩
  · exact .inr ⟨fun h => hp h.1, e, hrefusal, rfl⟩

theorem Decides.after {α : Type} {read : Except ε α} {a : α} {next : α → Except ε Unit}
    (hread : read = .ok a) (h : Decides refusal (next a) p) :
    Decides refusal (read >>= next) p := by
  rw [hread, ok_bind]
  exact h

theorem decides_ite {c : Prop} [Decidable c] (h : c → Decides refusal check p)
    (h' : ¬ c → Decides refusal check' q) :
    Decides refusal (if c then check else check') ((c → p) ∧ (¬ c → q)) := by
  by_cases hc : c
  · rw [if_pos hc]
    exact (h hc).congr ⟨fun hp => ⟨fun _ => hp, fun hn => absurd hc hn⟩, fun hpq => hpq.1 hc⟩
  · rw [if_neg hc]
    exact (h' hc).congr ⟨fun hq => ⟨fun hyes => absurd hyes hc, fun _ => hq⟩, fun hpq => hpq.2 hc⟩

theorem Decides.forM {α : Type} {f : α → Except ε Unit} {r : α → Prop} : ∀ {l : List α},
    (∀ a ∈ l, Decides refusal (f a) (r a)) → Decides refusal (l.forM f) (∀ a ∈ l, r a)
  | [], _ => decides_pass fun a ha => absurd ha List.not_mem_nil
  | a :: l, h => by
    have hrest : Decides refusal (l.forM f) (∀ b ∈ l, r b) :=
      Decides.forM fun b hb => h b (List.mem_cons_of_mem a hb)
    have hall := (h a (.head _)).seq fun _ => hrest
    exact hall.congr List.forall_mem_cons.symm

/-! ## 2. Steps that change a state -/

section Steps

variable {σ α : Type} {run : Except ε σ} {post post' : σ → Prop}

/-- **The run ends in a state as promised where `p` holds, and fails where it does not.** -/
def DecidesTo (p : Prop) (run : Except ε σ) (post : σ → Prop) : Prop :=
  (p ∧ ∃ s, run = .ok s ∧ post s) ∨ (¬ p ∧ ∃ e, run = .error e)

theorem DecidesTo.succeeds (h : DecidesTo p run post) : (∃ s, run = .ok s) ↔ p := by
  rcases h with ⟨hp, s, hrun, _⟩ | ⟨hp, e, hrun⟩
  · exact ⟨fun _ => hp, fun _ => ⟨s, hrun⟩⟩
  · constructor
    · intro h
      obtain ⟨s, hs⟩ := h
      rw [hrun] at hs
      cases hs
    · intro h
      exact absurd h hp

theorem DecidesTo.fails (h : DecidesTo p run post) : (∃ e, run = .error e) ↔ ¬ p := by
  rcases h with ⟨hp, s, hrun, _⟩ | ⟨hp, hfail⟩
  · rw [hrun]
    exact ⟨fun h => (nomatch h), fun hno => absurd hp hno⟩
  · exact ⟨fun _ => hp, fun _ => hfail⟩

theorem DecidesTo.ends (h : DecidesTo p run post) {s : σ} (hs : run = .ok s) : post s := by
  rcases h with ⟨_, s', hrun, hpost⟩ | ⟨_, e, hrun⟩
  · rw [hrun] at hs
    cases hs
    exact hpost
  · rw [hrun] at hs
    cases hs

theorem DecidesTo.congr (h : DecidesTo p run post) (hpq : p ↔ q) (hpost : ∀ s, post s → post' s) :
    DecidesTo q run post' := by
  rcases h with ⟨hp, s, hrun, hs⟩ | ⟨hp, hfail⟩
  · exact .inl ⟨hpq.mp hp, s, hrun, hpost s hs⟩
  · exact .inr ⟨fun hq => hp (hpq.mpr hq), hfail⟩

theorem decidesTo_ok {s : σ} (hp : p) (hs : post s) : DecidesTo (ε := ε) p (.ok s) post :=
  .inl ⟨hp, s, rfl, hs⟩

theorem DecidesTo.seq {τ : Type} {next : σ → Except ε τ} {post' : τ → Prop}
    (h : DecidesTo p run post) (h' : p → ∀ s, post s → DecidesTo q (next s) post') :
    DecidesTo (p ∧ q) (run >>= next) post' := by
  rcases h with ⟨hp, s, rfl, hs⟩ | ⟨hp, e, rfl⟩
  · exact (h' hp s hs).congr ⟨fun hq => ⟨hp, hq⟩, fun h => h.2⟩ fun _ hpost => hpost
  · exact .inr ⟨fun h => hp h.1, e, rfl⟩

theorem Decides.before {next : Except ε σ} (h : Decides refusal check p)
    (h' : p → DecidesTo q next post) : DecidesTo (p ∧ q) (check >>= fun _ => next) post := by
  rcases h with ⟨hp, rfl⟩ | ⟨hp, e, _, rfl⟩
  · exact (h' hp).congr ⟨fun hq => ⟨hp, hq⟩, fun h => h.2⟩ fun _ hpost => hpost
  · exact .inr ⟨fun h => hp h.1, e, rfl⟩

theorem Decides.guards {next : Except ε σ} (h : Decides refusal check p)
    (h' : p → ∃ s, next = .ok s ∧ post s) : DecidesTo p (check >>= fun _ => next) post := by
  have hnext : p → DecidesTo True next post := by
    intro hp
    obtain ⟨s, rfl, hs⟩ := h' hp
    exact decidesTo_ok trivial hs
  exact (h.before hnext).congr (and_iff_left trivial) fun _ hpost => hpost

/-- **A loop over a list.** -/
theorem DecidesTo.foldlM {step : σ → α → Except ε σ} {I : List α → σ → Prop} {r : α → Prop} :
    ∀ {l : List α} (_ : ∀ a ∈ l, ∀ had s, (∀ b ∈ had, r b) → I had s →
        DecidesTo (r a) (step s a) (I (had ++ [a])))
      (had : List α) {s : σ}, (∀ b ∈ had, r b) → I had s →
      DecidesTo (∀ a ∈ l, r a) (l.foldlM step s) (I (had ++ l))
  | [], _, had, s, _, hs => by
    refine decidesTo_ok (fun a ha => absurd ha List.not_mem_nil) ?_
    rw [List.append_nil]
    exact hs
  | a :: l, hstep, had, s, hhad, hs => by
    have hsteps : ∀ b ∈ l, ∀ had s, (∀ b ∈ had, r b) → I had s →
        DecidesTo (r b) (step s b) (I (had ++ [b])) :=
      fun b hb => hstep b (List.mem_cons_of_mem a hb)
    have hall := (hstep a (.head _) had s hhad hs).seq fun ha s' hs' =>
      DecidesTo.foldlM hsteps (had ++ [a]) (fun b hb => by
        rcases List.mem_append.mp hb with hb | hb
        · exact hhad b hb
        · rw [List.mem_singleton.mp hb]
          exact ha) hs'
    refine hall.congr List.forall_mem_cons.symm fun s' hs' => ?_
    rw [List.append_assoc] at hs'
    exact hs'

end Steps

end Lithograph.Library
