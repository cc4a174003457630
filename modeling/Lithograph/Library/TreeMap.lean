/-
  File:      Lithograph/Library/TreeMap.lean
  Subject:   Sorted maps under a loop: what a fold over the entries of a map leaves behind.

  A `BTreeMap` is read as `Std.ExtTreeMap`; a pair key is ordered by its first component first.
-/
import Mathlib.Algebra.Order.Ring.Int
import Mathlib.Data.List.Lex
import Mathlib.Data.List.Perm.Subperm

namespace Lithograph.Library

open Std

/-- Pairs are compared first component first, as the derived order of a tuple is. -/
instance instOrdPair {α β : Type} [Ord α] [Ord β] : Ord (α × β) := lexOrd

variable {ε α δ σ : Type}

/-- **A sequence succeeds exactly when its parts do.** -/
theorem bind_eq_ok {β : Type} {x : Except ε α} {f : α → Except ε β} {b : β} :
    (x >>= f) = .ok b ↔ ∃ a, x = .ok a ∧ f a = .ok b := by
  cases x with
  | error e =>
      refine ⟨fun h => ?_, ?_⟩
      · cases h
      · rintro ⟨a, h, _⟩
        cases h
  | ok a =>
      refine ⟨fun h => ⟨a, rfl, h⟩, ?_⟩
      rintro ⟨a', h, hf⟩
      cases h
      exact hf

theorem ok_bind {ε α β : Type} (a : α) (f : α → Except ε β) : (Except.ok a >>= f) = f a := rfl

theorem error_bind {β : Type} (e : ε) (f : α → Except ε β) :
    (Except.error e >>= f) = .error e := rfl

theorem exists_of_isOk {x : Except ε α} (h : x.isOk = true) : ∃ a, x = .ok a := by
  cases x with
  | error e => cases h
  | ok a => exact ⟨a, rfl⟩

/-! ## 1. The entries of a map -/

section Entries

variable {α β : Type} [Ord α] [TransOrd α] [LawfulEqOrd α]

theorem toList_keys_ne (m : ExtTreeMap α β) : m.toList.Pairwise (fun a b => a.1 ≠ b.1) := by
  have hd : m.toList.Pairwise fun a b => ¬ compare a.1 b.1 = .eq := ExtTreeMap.distinct_keys_toList
  refine hd.imp fun h e => h ?_
  rw [e]
  exact ReflCmp.compare_self

variable {m : ExtTreeMap α β}

theorem lookup_of_mem {k : α} {v : β} (h : (k, v) ∈ m.toList) : m[k]? = some v :=
  ExtTreeMap.mem_toList_iff_getElem?_eq_some.mp h

theorem mem_of_lookup {k : α} {v : β} (h : m[k]? = some v) : (k, v) ∈ m.toList :=
  ExtTreeMap.mem_toList_iff_getElem?_eq_some.mpr h

theorem not_mem_toList {k : α} (h : m[k]? = none) (v : β) : (k, v) ∉ m.toList := by
  intro hv
  rw [lookup_of_mem hv] at h
  cases h

theorem forall_mem_toList {p : α × β → Prop} :
    (∀ e ∈ m.toList, p e) ↔ ∀ (k : α) (v : β), m[k]? = some v → p (k, v) :=
  ⟨fun h _ _ hv => h _ (mem_of_lookup hv),
    fun h e he => h e.1 e.2 (lookup_of_mem he)⟩

theorem forall_mem_keys {p : α → Prop} :
    (∀ k ∈ m.keys, p k) ↔ ∀ (k : α) (v : β), m[k]? = some v → p k := by
  constructor
  · intro h k v hv
    exact h k (ExtTreeMap.mem_keys.mpr (ExtTreeMap.mem_iff_isSome_getElem?.mpr
      (Option.isSome_of_eq_some hv)))
  · intro h k hk
    obtain ⟨v, hv⟩ := Option.isSome_iff_exists.mp
      (ExtTreeMap.mem_iff_isSome_getElem?.mp (ExtTreeMap.mem_keys.mp hk))
    exact h k v hv

theorem lookup_insert [DecidableEq α] (m : ExtTreeMap α β) (k a : α) (v : β) :
    (m.insert k v)[a]? = if a = k then some v else m[a]? := by
  rw [ExtTreeMap.getElem?_insert]
  by_cases h : a = k
  · rw [if_pos h, if_pos (by rw [h]; exact ReflCmp.compare_self)]
  · rw [if_neg h, if_neg fun e => h (LawfulEqCmp.eq_of_compare e).symm]

theorem lookup_erase [DecidableEq α] (m : ExtTreeMap α β) (k a : α) :
    (m.erase k)[a]? = if a = k then none else m[a]? := by
  rw [ExtTreeMap.getElem?_erase]
  by_cases h : a = k
  · rw [if_pos h, if_pos (by rw [h]; exact ReflCmp.compare_self)]
  · rw [if_neg h, if_neg fun e => h (LawfulEqCmp.eq_of_compare e).symm]

theorem insert_comm [DecidableEq α] (m : ExtTreeMap α β) {a b : α} {x y : β} (h : a ≠ b) :
    (m.insert a x).insert b y = (m.insert b y).insert a x := by
  refine ExtTreeMap.ext_getElem? fun k => ?_
  rw [lookup_insert, lookup_insert, lookup_insert, lookup_insert]
  by_cases ha : k = a
  · rw [if_neg (fun hb => h (ha.symm.trans hb)), if_pos ha, if_pos ha]
  · rw [if_neg ha, if_neg ha]

end Entries

/-! ## 2. A fallible loop over a list -/

section ListLoop

variable {α β σ ε γ : Type} {step : σ → α → Except ε σ} {f : α → Except ε β}

theorem list_foldlM_inv (I : σ → Prop) :
    ∀ {l : List α} {s s' : σ}, (∀ s a s', a ∈ l → I s → step s a = .ok s' → I s') →
      I s → l.foldlM step s = .ok s' → I s'
  | [], _, _, _, hI, h => by cases h; exact hI
  | a :: l, s, s', hstep, hI, h => by
      obtain ⟨s₁, h₁, h⟩ := bind_eq_ok.mp h
      exact list_foldlM_inv I (fun s b s' hb => hstep s b s' (.tail _ hb))
        (hstep s a s₁ (.head _) hI h₁) h

theorem check_bind_eq_ok {x : Except ε Unit} {f : Unit → Except ε β} {b : β} :
    (x >>= f) = .ok b ↔ x = .ok () ∧ f () = .ok b := by
  rw [bind_eq_ok]
  constructor
  · rintro ⟨_, hx, hf⟩
    exact ⟨hx, hf⟩
  · rintro ⟨hx, hf⟩
    exact ⟨(), hx, hf⟩

theorem forM_eq_ok {f : α → Except ε Unit} :
    ∀ {l : List α}, l.forM f = .ok () ↔ ∀ a ∈ l, f a = .ok ()
  | [] => by simp [pure, Except.pure]
  | a :: l => by
      show (f a >>= fun _ => l.forM f) = .ok () ↔ _
      rw [bind_eq_ok, List.forall_mem_cons, ← forM_eq_ok]
      constructor
      · rintro ⟨_, ha, hl⟩
        exact ⟨ha, hl⟩
      · rintro ⟨ha, hl⟩
        exact ⟨(), ha, hl⟩

theorem list_foldlM_total :
    ∀ {l : List α} {s : σ}, (∀ s a, a ∈ l → ∃ s', step s a = .ok s') →
      ∃ s', l.foldlM step s = .ok s'
  | [], s, _ => ⟨s, rfl⟩
  | a :: l, s, h => by
      obtain ⟨s₁, h₁⟩ := h s a (.head _)
      obtain ⟨s', h'⟩ := list_foldlM_total (s := s₁) fun s b hb => h s b (.tail _ hb)
      exact ⟨s', by rw [List.foldlM_cons]; exact bind_eq_ok.mpr ⟨s₁, h₁, h'⟩⟩

theorem mapM_total : ∀ {l : List α}, (∀ a ∈ l, ∃ b, f a = .ok b) → ∃ r, l.mapM f = .ok r
  | [], _ => ⟨[], rfl⟩
  | a :: l, h => by
      obtain ⟨b, hb⟩ := h a (.head _)
      obtain ⟨r, hr⟩ := mapM_total fun c hc => h c (List.mem_cons_of_mem a hc)
      refine ⟨b :: r, ?_⟩
      rw [List.mapM_cons, hb, ok_bind, hr]
      rfl

theorem mapM_ok_of_mem : ∀ {l : List α} {r : List β}, l.mapM f = .ok r → ∀ a ∈ l, ∃ b, f a = .ok b
  | [], _, _, _, ha => absurd ha List.not_mem_nil
  | a :: l, r, h, c, hc => by
      rw [List.mapM_cons] at h
      obtain ⟨b, hb, h⟩ := bind_eq_ok.mp h
      obtain ⟨bs, hbs, _⟩ := bind_eq_ok.mp h
      rcases List.mem_cons.mp hc with rfl | hc
      · exact ⟨b, hb⟩
      · exact mapM_ok_of_mem hbs c hc

theorem mapM_congr_ok {f g : α → Except ε β} :
    ∀ {l : List α} {r : List β}, l.mapM f = .ok r → (∀ a b, f a = .ok b → g a = .ok b) →
      l.mapM g = .ok r
  | [], r, h, _ => h
  | a :: l, r, h, hfg => by
      rw [List.mapM_cons] at h ⊢
      obtain ⟨b, hb, h⟩ := bind_eq_ok.mp h
      obtain ⟨bs, hbs, h⟩ := bind_eq_ok.mp h
      rw [hfg a b hb, ok_bind, mapM_congr_ok hbs hfg]
      exact h

theorem exists_of_mem_mapM :
    ∀ {l : List α} {r : List β}, l.mapM f = .ok r → ∀ b ∈ r, ∃ a ∈ l, f a = .ok b
  | [], r, h, b, hb => by
      have hr : [] = r := Except.ok.inj (h : Except.ok [] = Except.ok r)
      rw [← hr] at hb
      exact absurd hb List.not_mem_nil
  | a :: l, r, h, c, hc => by
      rw [List.mapM_cons] at h
      obtain ⟨b, hb, h⟩ := bind_eq_ok.mp h
      obtain ⟨bs, hbs, h⟩ := bind_eq_ok.mp h
      cases h
      rcases List.mem_cons.mp hc with rfl | hc
      · exact ⟨a, .head _, hb⟩
      · obtain ⟨a', ha', hfa⟩ := exists_of_mem_mapM hbs c hc
        exact ⟨a', List.mem_cons_of_mem a ha', hfa⟩

theorem mapM_of_forall₂ {l : List α} {r : List β}
    (h : List.Forall₂ (fun a b => f a = .ok b) l r) : l.mapM f = .ok r := by
  induction h with
  | nil => rfl
  | cons hb _ ih => rw [List.mapM_cons, hb, ok_bind, ih]; rfl

theorem length_mapM : ∀ {l : List α} {r : List β}, l.mapM f = .ok r → r.length = l.length
  | [], r, h => by
      have hr : [] = r := Except.ok.inj (h : Except.ok [] = Except.ok r)
      rw [← hr]
      rfl
  | a :: l, r, h => by
      rw [List.mapM_cons] at h
      obtain ⟨b, _, h⟩ := bind_eq_ok.mp h
      obtain ⟨bs, hbs, h⟩ := bind_eq_ok.mp h
      cases h
      rw [List.length_cons, List.length_cons, length_mapM hbs]

theorem list_foldlM_each :
    ∀ {l : List α} {s s' : σ}, l.foldlM step s = .ok s' → ∀ a ∈ l, ∃ s₁ s₂, step s₁ a = .ok s₂
  | [], _, _, _, _, ha => absurd ha List.not_mem_nil
  | a :: l, s, s', h, b, hb => by
      obtain ⟨s₁, h₁, h⟩ := bind_eq_ok.mp h
      rcases List.mem_cons.mp hb with rfl | hb
      · exact ⟨s, s₁, h₁⟩
      · exact list_foldlM_each h b hb

theorem list_foldlM_length {step : Nat → α → Except ε Nat}
    (hstep : ∀ n a n', step n a = .ok n' → n' = n + 1) :
    ∀ {l : List α} {n m : Nat}, l.foldlM step n = .ok m → m = n + l.length
  | [], n, m, h => by
      cases h
      rfl
  | a :: l, n, m, h => by
      obtain ⟨n₁, h₁, h⟩ := bind_eq_ok.mp h
      rw [list_foldlM_length hstep h, hstep n a n₁ h₁, List.length_cons]
      omega

theorem list_foldlM_congr {step step' : σ → α → Except ε σ} :
    ∀ {l : List α} (s : σ), (∀ s, ∀ a ∈ l, step s a = step' s a) →
      l.foldlM step s = l.foldlM step' s
  | [], _, _ => rfl
  | a :: l, s, h => by
      rw [List.foldlM_cons, List.foldlM_cons, h s a List.mem_cons_self]
      congr 1
      funext s₁
      exact list_foldlM_congr s₁ fun s b hb => h s b (List.mem_cons_of_mem a hb)

theorem list_foldlM_flatMap (parts : β → List α) :
    ∀ (l : List β) (s : σ), (l.flatMap parts).foldlM step s =
      l.foldlM (fun s b => (parts b).foldlM step s) s
  | [], _ => rfl
  | b :: l, s => by
    rw [List.flatMap_cons, List.foldlM_append, List.foldlM_cons]
    exact bind_congr fun s' => list_foldlM_flatMap parts l s'

theorem list_foldlM_collect :
    ∀ {l : List α} {bs : List β}, l.mapM f = .ok bs → ∀ acc : List β,
      l.foldlM (fun acc a => do
        let b ← f a
        pure (acc ++ [b])) acc = .ok (acc ++ bs)
  | [], bs, h, acc => by
      have hbs : [] = bs := Except.ok.inj (h : Except.ok [] = Except.ok bs)
      rw [← hbs, List.append_nil]
      rfl
  | a :: l, bs, h, acc => by
      rw [List.mapM_cons] at h
      obtain ⟨b, hb, h⟩ := bind_eq_ok.mp h
      obtain ⟨rest, hrest, h⟩ := bind_eq_ok.mp h
      cases h
      rw [List.foldlM_cons, hb, ok_bind]
      show l.foldlM _ (acc ++ [b]) = _
      rw [list_foldlM_collect hrest, List.append_assoc]
      rfl

theorem list_foldlM_checked {step : Nat → α → Except ε Nat} :
    ∀ {l : List α} (n : Nat), (∀ n, ∀ a ∈ l, step n a = .ok (n + 1)) →
      l.foldlM step n = .ok (n + l.length)
  | [], _, _ => rfl
  | a :: l, n, h => by
      rw [List.foldlM_cons, h n a List.mem_cons_self, ok_bind,
        list_foldlM_checked (n + 1) fun n b hb => h n b (List.mem_cons_of_mem a hb),
        List.length_cons, Nat.add_assoc, Nat.add_comm 1]

/-- **The order of passes that commute does not matter.** -/
theorem list_foldlM_perm {R : α → α → Prop} (hsymm : ∀ {a b}, R a b → R b a)
    (hcomm : ∀ {a b s s₁ s₂}, R a b → step s a = .ok s₁ → step s₁ b = .ok s₂ →
      ∃ s₁', step s b = .ok s₁' ∧ step s₁' a = .ok s₂) {l l' : List α} (hperm : l.Perm l') :
    ∀ {s s' : σ}, l.Pairwise R → l.foldlM step s = .ok s' → l'.foldlM step s = .ok s' := by
  induction hperm with
  | nil => exact fun _ h => h
  | cons a _ ih =>
    intro s s' hpair h
    obtain ⟨s₁, h₁, h⟩ := bind_eq_ok.mp h
    exact bind_eq_ok.mpr ⟨s₁, h₁, ih (List.pairwise_cons.mp hpair).2 h⟩
  | swap a b l =>
    intro s s' hpair h
    have hR : R b a := (List.pairwise_cons.mp hpair).1 a (.head _)
    obtain ⟨s₁, h₁, h⟩ := bind_eq_ok.mp h
    obtain ⟨s₂, h₂, h⟩ := bind_eq_ok.mp h
    obtain ⟨s₁', h₁', h₂'⟩ := hcomm hR h₁ h₂
    refine bind_eq_ok.mpr ⟨s₁', h₁', ?_⟩
    exact bind_eq_ok.mpr ⟨s₂, h₂', h⟩
  | trans hperm _ ih₁ ih₂ =>
    intro s s' hpair h
    exact ih₂ ((List.Perm.pairwise_iff hsymm hperm).mp hpair) (ih₁ hpair h)

theorem mapM_inj (key : α → γ) :
    ∀ {xs ys : List α} {bs : List β}, xs.mapM f = .ok bs → ys.mapM f = .ok bs →
      (∀ a ∈ xs, ∀ b ∈ ys, ∀ c, f a = .ok c → f b = .ok c → key a = key b) →
      xs.map key = ys.map key
  | [], [], _, _, _, _ => rfl
  | [], y :: ys, bs, hx, hy, _ => by
      have hbs : [] = bs := Except.ok.inj (hx : Except.ok [] = Except.ok bs)
      rw [List.mapM_cons, ← hbs] at hy
      obtain ⟨b, _, hy⟩ := bind_eq_ok.mp hy
      obtain ⟨rest, _, hy⟩ := bind_eq_ok.mp hy
      cases hy
  | x :: xs, [], bs, hx, hy, _ => by
      have hbs : [] = bs := Except.ok.inj (hy : Except.ok [] = Except.ok bs)
      rw [List.mapM_cons, ← hbs] at hx
      obtain ⟨b, _, hx⟩ := bind_eq_ok.mp hx
      obtain ⟨rest, _, hx⟩ := bind_eq_ok.mp hx
      cases hx
  | x :: xs, y :: ys, bs, hx, hy, hkey => by
      rw [List.mapM_cons] at hx hy
      obtain ⟨b, hb, hx⟩ := bind_eq_ok.mp hx
      obtain ⟨rest, hrest, hx⟩ := bind_eq_ok.mp hx
      cases hx
      obtain ⟨b', hb', hy⟩ := bind_eq_ok.mp hy
      obtain ⟨rest', hrest', hy⟩ := bind_eq_ok.mp hy
      cases hy
      rw [List.map_cons, List.map_cons, hkey x List.mem_cons_self y List.mem_cons_self b hb hb',
        mapM_inj key hrest hrest' fun a ha c hc =>
          hkey a (List.mem_cons_of_mem x ha) c (List.mem_cons_of_mem y hc)]

theorem map_inj_of_mem {f : α → β} :
    ∀ {xs ys : List α}, (∀ a ∈ xs, ∀ b ∈ ys, f a = f b → a = b) → xs.map f = ys.map f → xs = ys
  | [], [], _, _ => rfl
  | [], y :: ys, _, h => by cases h
  | x :: xs, [], _, h => by cases h
  | x :: xs, y :: ys, hf, h => by
      rw [List.map_cons, List.map_cons, List.cons.injEq] at h
      rw [hf x List.mem_cons_self y List.mem_cons_self h.1,
        map_inj_of_mem (fun a ha b hb =>
          hf a (List.mem_cons_of_mem x ha) b (List.mem_cons_of_mem y hb)) h.2]

theorem append_inj_of_kind {p : α → Prop} :
    ∀ {xs xs' ys ys' : List α}, (∀ a ∈ xs, p a) → (∀ a ∈ xs', p a) → (∀ a ∈ ys, ¬ p a) →
      (∀ a ∈ ys', ¬ p a) → xs ++ ys = xs' ++ ys' → xs = xs' ∧ ys = ys'
  | [], [], _, _, _, _, _, _, h => ⟨rfl, h⟩
  | [], x :: xs', ys, ys', _, hx', hy, _, h => by
      have hmem : x ∈ ys := by
        rw [List.nil_append] at h
        rw [h]
        exact .head _
      exact absurd (hx' x (.head _)) (hy x hmem)
  | x :: xs, [], ys, ys', hx, _, _, hy', h => by
      have hmem : x ∈ ys' := by
        rw [List.nil_append] at h
        rw [← h]
        exact .head _
      exact absurd (hx x (.head _)) (hy' x hmem)
  | x :: xs, x' :: xs', ys, ys', hx, hx', hy, hy', h => by
      rw [List.cons_append, List.cons_append, List.cons.injEq] at h
      obtain ⟨hxs, hys⟩ := append_inj_of_kind (fun a ha => hx a (List.mem_cons_of_mem x ha))
        (fun a ha => hx' a (List.mem_cons_of_mem x' ha)) hy hy' h.2
      exact ⟨by rw [h.1, hxs], hys⟩

/-- The loop over entries with distinct keys, seen cell by cell. -/
theorem list_foldlM_lookup [DecidableEq α] {step : σ → α × β → Except ε σ} (look : σ → α → γ)
    (g : α → β → γ → γ) :
    ∀ {l : List (α × β)} {s s' : σ}, l.Pairwise (fun a b => a.1 ≠ b.1) →
      (∀ s p s', p ∈ l → step s p = .ok s' →
        ∀ j, look s' j = if j = p.1 then g p.1 p.2 (look s p.1) else look s j) →
      l.foldlM step s = .ok s' →
      ∀ j, (∀ v, (j, v) ∈ l → look s' j = g j v (look s j)) ∧
        ((∀ v, (j, v) ∉ l) → look s' j = look s j)
  | [], s, s', _, _, h, j => by
      cases h
      exact ⟨fun v hv => absurd hv List.not_mem_nil, fun _ => rfl⟩
  | p :: l, s, s', hd, hstep, h, j => by
      obtain ⟨hp, hd⟩ := List.pairwise_cons.mp hd
      obtain ⟨s₁, hs, h⟩ := bind_eq_ok.mp h
      have hone := hstep s p s₁ (.head _) hs j
      have ih := list_foldlM_lookup look g hd
        (fun s q s' hq => hstep s q s' (.tail _ hq)) h j
      by_cases hj : j = p.1
      · subst hj
        have hrest : ∀ v, (p.1, v) ∉ l := fun v hv => hp _ hv rfl
        rw [if_pos rfl] at hone
        refine ⟨fun v hv => ?_, fun hno => absurd (.head _) (hno p.2)⟩
        rcases List.mem_cons.mp hv with e | hv
        · rw [ih.2 hrest, hone, ← e]
        · exact absurd hv (hrest v)
      · rw [if_neg hj] at hone
        refine ⟨fun v hv => ?_, fun hno => ?_⟩
        · rcases List.mem_cons.mp hv with e | hv
          · exact absurd (congrArg Prod.fst e) hj
          · rw [ih.1 v hv, hone]
        · rw [ih.2 fun v hv => hno v (.tail _ hv), hone]

theorem list_foldlM_count (look : σ → Nat) (hit : α → Bool) {cap : Nat} :
    ∀ {l : List α} {s s' : σ},
      (∀ s a s', a ∈ l → step s a = .ok s' →
        look s' = if hit a then min (look s + 1) cap else look s) →
      look s ≤ cap → l.foldlM step s = .ok s' → look s' = min (look s + l.countP hit) cap
  | [], s, s', _, hs, h => by
      cases h
      simp [Nat.min_eq_left hs]
  | a :: l, s, s', hstep, hs, h => by
      obtain ⟨s₁, h₁, h⟩ := bind_eq_ok.mp h
      have hone := hstep s a s₁ (.head _) h₁
      have hcap : look s₁ ≤ cap := by
        rw [hone]
        split
        · exact Nat.min_le_right _ _
        · exact hs
      rw [list_foldlM_count look hit (fun s b s' hb => hstep s b s' (.tail _ hb)) hcap h,
        hone, List.countP_cons]
      by_cases ha : hit a = true
      · simp only [ha, if_true]
        omega
      · simp only [ha, if_false, Nat.add_zero, Bool.false_eq_true]

end ListLoop

/-! ## 3. A fallible loop over a map -/

section MapLoop

variable {α β : Type} [Ord α] [TransOrd α] [LawfulEqOrd α] {σ ε γ : Type} {m : ExtTreeMap α β}
  {step : σ → α → β → Except ε σ} {s s' : σ}

/-- **A loop over a map, seen cell by cell**: a cell shows what its entry made of it. -/
theorem foldlM_lookup [DecidableEq α] (look : σ → α → γ) (g : α → β → γ → γ)
    (hstep : ∀ s k v s', m[k]? = some v → step s k v = .ok s' →
      ∀ j, look s' j = if j = k then g k v (look s k) else look s j)
    (h : m.foldlM step s = .ok s') (j : α) :
    look s' j = match m[j]? with
      | some v => g j v (look s j)
      | none => look s j := by
  rw [ExtTreeMap.foldlM_eq_foldlM_toList] at h
  have hl := list_foldlM_lookup look g (toList_keys_ne m)
    (fun s p s' hp hs j => hstep s p.1 p.2 s' (lookup_of_mem hp) hs j) h j
  cases e : m[j]? with
  | some v => exact hl.1 v (mem_of_lookup e)
  | none => exact hl.2 (not_mem_toList e)

theorem foldlM_inv (I : σ → Prop)
    (hstep : ∀ s k v s', m[k]? = some v → I s → step s k v = .ok s' → I s')
    (h0 : I s) (h : m.foldlM step s = .ok s') : I s' := by
  rw [ExtTreeMap.foldlM_eq_foldlM_toList] at h
  exact list_foldlM_inv I (fun s p s' hp => hstep s p.1 p.2 s' (lookup_of_mem hp)) h0 h

theorem foldlM_total {s : σ} (h : ∀ s k v, m[k]? = some v → ∃ s', step s k v = .ok s') :
    ∃ s', m.foldlM step s = .ok s' := by
  rw [ExtTreeMap.foldlM_eq_foldlM_toList]
  exact list_foldlM_total fun s p hp => h s p.1 p.2 (lookup_of_mem hp)

theorem foldlM_count (look : σ → Nat)
    (hit : α × β → Bool) {cap : Nat} (hstep : ∀ s k v s', m[k]? = some v → step s k v = .ok s' →
      look s' = if hit (k, v) then min (look s + 1) cap else look s)
    (h0 : look s ≤ cap) (h : m.foldlM step s = .ok s') :
    look s' = min (look s + m.toList.countP hit) cap := by
  rw [ExtTreeMap.foldlM_eq_foldlM_toList] at h
  exact list_foldlM_count look hit
    (fun s p s' hp => hstep s p.1 p.2 s' (lookup_of_mem hp)) h0 h

theorem foldl_lookup [DecidableEq α] {step : σ → α → β → σ}
    (look : σ → α → γ) (g : α → β → γ → γ) {s : σ}
    (hstep : ∀ s k v, m[k]? = some v →
      ∀ j, look (step s k v) j = if j = k then g k v (look s k) else look s j) (j : α) :
    look (m.foldl step s) j = match m[j]? with
      | some v => g j v (look s j)
      | none => look s j := by
  let stepM : σ → α → β → Except Unit σ := fun s k v => .ok (step s k v)
  have h : m.foldlM stepM s = .ok (m.foldl step s) := by
    rw [ExtTreeMap.foldlM_eq_foldlM_toList, ExtTreeMap.foldl_eq_foldl_toList]
    exact List.foldlM_pure
  refine foldlM_lookup look g (fun s k v s' hk e j => ?_) h j
  cases e
  exact hstep s k v hk j

/-- A loop over rows, seen cell by cell. -/
theorem foldl_row_lookup {κ : Type} [Ord κ] [TransOrd κ] [LawfulEqOrd κ] [DecidableEq α]
    [DecidableEq κ] {m : ExtTreeMap (α × κ) β}
    {step : ExtTreeMap κ δ → α × κ → β → ExtTreeMap κ δ} (g : α × κ → β → Option δ → Option δ)
    {acc : ExtTreeMap κ δ} (a : α) (hother : ∀ acc row v, row.1 ≠ a → step acc row v = acc)
    (hown : ∀ acc row v, row.1 = a →
      ∀ b, (step acc row v)[b]? = if b = row.2 then g row v acc[b]? else acc[b]?) (b : κ) :
    (m.foldl step acc)[b]? = match m[(a, b)]? with
      | some v => g (a, b) v acc[b]?
      | none => acc[b]? := by
  have hstep : ∀ (acc : ExtTreeMap κ δ) (row : α × κ) (v : β), m[row]? = some v →
      ∀ j : α × κ, (if j.1 = a then (step acc row v)[j.2]? else none) =
        if j = row then (if row.1 = a then g row v (if row.1 = a then acc[row.2]? else none)
          else none)
        else if j.1 = a then acc[j.2]? else none := by
    intro acc row v _ j
    by_cases hr : row.1 = a
    · by_cases hj : j = row
      · subst hj
        simp only [hr, hown acc j v hr, if_true]
      · rw [if_neg hj]
        by_cases h1 : j.1 = a
        · rw [if_pos h1, if_pos h1, hown acc row v hr, if_neg]
          intro e
          exact hj (Prod.ext (h1.trans hr.symm) e)
        · rw [if_neg h1, if_neg h1]
    · rw [hother acc row v hr]
      by_cases hj : j = row
      · subst hj
        simp [hr]
      · rw [if_neg hj]
  have h := foldl_lookup (fun (acc : ExtTreeMap κ δ) (row : α × κ) =>
      if row.1 = a then acc[row.2]? else none)
    (fun row v old => if row.1 = a then g row v old else none) (s := acc) hstep (a, b)
  simpa using h

/-- The entry written where there is one. -/
def insertSome (m : ExtTreeMap α β) (k : α) : Option β → ExtTreeMap α β
  | none => m
  | some v => m.insert k v

/-- **A map filled by a loop**, each entry under its own key, is the map looped over, filtered. -/
theorem foldlM_filterMap [DecidableEq α] (field : σ → ExtTreeMap α δ) (entry : α → β → Option δ)
    (hstep : ∀ s k v s', m[k]? = some v → step s k v = .ok s' →
      field s' = insertSome (field s) k (entry k v)) (h0 : field s = ∅)
    (h : m.foldlM step s = .ok s') : field s' = m.filterMap entry := by
  refine ExtTreeMap.ext_getElem? fun k => ?_
  rw [foldlM_lookup (fun s k => (field s)[k]?) (fun k v old => (entry k v).or old)
    (fun s k v s' hk hs j => ?_) h k, ExtTreeMap.getElem?_filterMap', h0]
  · cases m[k]? <;> simp
  · rw [hstep s k v s' hk hs]
    cases entry k v with
    | none =>
      by_cases hj : j = k
      · subst hj
        simp [insertSome]
      · simp [insertSome, hj]
    | some w => exact lookup_insert (field s) k j w

end MapLoop

/-! ## 4. One map written over another -/

section Insert

variable {α β : Type} [Ord α] [TransOrd α] [LawfulEqOrd α]

/-- Every entry of `entries` inserted into `target`, one after the other. -/
def insertEntries (target entries : ExtTreeMap α β) : ExtTreeMap α β :=
  entries.foldl (fun t k v => t.insert k v) target

/-- **A key shows its new entry, or its old value.** -/
theorem getElem?_insertEntries [DecidableEq α] (target entries : ExtTreeMap α β) (k : α) :
    (insertEntries target entries)[k]? = (entries[k]?).or target[k]? := by
  have hl := foldl_lookup (m := entries) (fun (t : ExtTreeMap α β) j => t[j]?)
    (fun _ v _ => some v) (s := target) (fun t k v _ j => lookup_insert t k j v) k
  unfold insertEntries
  rw [hl]
  cases entries[k]? <;> rfl

theorem mem_insertEntries [DecidableEq α] {target entries : ExtTreeMap α β} {k : α} {v : β}
    (h : (insertEntries target entries)[k]? = some v) :
    entries[k]? = some v ∨ target[k]? = some v := by
  rw [getElem?_insertEntries] at h
  cases hk : entries[k]? with
  | none =>
    rw [hk] at h
    exact .inr h
  | some v' =>
    rw [hk] at h
    exact .inl h

theorem insertEntries_empty [DecidableEq α] (entries : ExtTreeMap α β) :
    insertEntries ∅ entries = entries := by
  refine ExtTreeMap.ext_getElem? fun k => ?_
  rw [getElem?_insertEntries]
  cases entries[k]? <;> simp

omit [LawfulEqOrd α] in
theorem foldlM_insertEntries (get : σ → ExtTreeMap α β) (set : σ → ExtTreeMap α β → σ)
    (hget : ∀ s m, get (set s m) = m) (hset : ∀ s m m', set (set s m) m' = set s m')
    (hself : ∀ s, set s (get s) = s) (entries : ExtTreeMap α β) (s : σ) :
    entries.toList.foldlM (fun s e => (pure (set s ((get s).insert e.1 e.2)) : Except ε σ)) s =
      .ok (set s (insertEntries (get s) entries)) := by
  have hlist : ∀ (l : List (α × β)) (s : σ),
      l.foldlM (fun s e => (pure (set s ((get s).insert e.1 e.2)) : Except ε σ)) s =
        .ok (set s (l.foldl (fun t e => t.insert e.1 e.2) (get s))) := by
    intro l
    induction l with
    | nil =>
      intro s
      rw [List.foldl_nil, hself]
      rfl
    | cons e l ih =>
      intro s
      rw [List.foldlM_cons, List.foldl_cons]
      show l.foldlM _ (set s ((get s).insert e.1 e.2)) = _
      rw [ih, hget, hset]
  rw [hlist]
  unfold insertEntries
  rw [ExtTreeMap.foldl_eq_foldl_toList]

/-- **A loop that writes into a map it holds**, each pass under its own key: the map it leaves. -/
theorem list_foldlM_component [DecidableEq α] {σ ε δ : Type}
    (get : σ → ExtTreeMap α δ) (set : σ → ExtTreeMap α δ → σ) (hget : ∀ s m, get (set s m) = m)
    (hset : ∀ s m m', set (set s m) m' = set s m') (hself : ∀ s, set s (get s) = s)
    (entry : α → β → Option δ) {step : σ → α × β → Except ε σ} :
    ∀ {l : List (α × β)} (s : σ), l.Pairwise (fun a b => a.1 ≠ b.1) →
      (∀ s, ∀ e ∈ l, step s e = .ok (set s (insertSome (get s) e.1 (entry e.1 e.2)))) →
      ∃ m, l.foldlM step s = .ok (set s m) ∧ ∀ k : α,
        (∀ v, (k, v) ∈ l → m[k]? = (entry k v).or (get s)[k]?) ∧
          ((∀ v, (k, v) ∉ l) → m[k]? = (get s)[k]?)
  | [], s, _, _ => ⟨get s, by rw [hself]; rfl, fun k => ⟨fun v hv => absurd hv List.not_mem_nil,
      fun _ => rfl⟩⟩
  | e :: l, s, hd, hstep => by
      obtain ⟨he, hd⟩ := List.pairwise_cons.mp hd
      obtain ⟨m, hfold, hm⟩ := list_foldlM_component get set hget hset hself entry
        (set s (insertSome (get s) e.1 (entry e.1 e.2))) hd
        fun s e' he' => hstep s e' (List.mem_cons_of_mem e he')
      have hone : ∀ k : α, (insertSome (get s) e.1 (entry e.1 e.2))[k]? =
          if k = e.1 then (entry e.1 e.2).or (get s)[k]? else (get s)[k]? := by
        cases entry e.1 e.2 with
        | none => simp [insertSome]
        | some v => simp [insertSome, lookup_insert]
      refine ⟨m, ?_, fun k => ?_⟩
      · rw [List.foldlM_cons, hstep s e List.mem_cons_self, ok_bind, hfold, hset]
      · obtain ⟨hin, hout⟩ := hm k
        rw [hget, hone] at hin hout
        by_cases hk : k = e.1
        · subst hk
          have hrest : ∀ v, (e.1, v) ∉ l := fun v hv => he _ hv rfl
          refine ⟨fun v hv => ?_, fun hno => absurd (.head _) (hno e.2)⟩
          rcases List.mem_cons.mp hv with heq | hv
          · rw [hout hrest, if_pos rfl, ← heq]
          · exact absurd hv (hrest v)
        · simp only [if_neg hk] at hin hout
          refine ⟨fun v hv => ?_, fun hno => ?_⟩
          · rcases List.mem_cons.mp hv with heq | hv
            · exact absurd (congrArg Prod.fst heq) hk
            · exact hin v hv
          · exact hout fun v hv => hno v (List.mem_cons_of_mem e hv)

/-- Two such loops, one after the other. -/
theorem list_foldlM_components [DecidableEq α] (get : σ → ExtTreeMap α δ)
    (set : σ → ExtTreeMap α δ → σ) (hget : ∀ s m, get (set s m) = m)
    (hset : ∀ s m m', set (set s m) m' = set s m') (hself : ∀ s, set s (get s) = s)
    (first second : α → β → Option δ) (step step' : σ → α × β → Except ε σ)
    (m m' : ExtTreeMap α β) (s : σ)
    (hstep : ∀ s, ∀ e ∈ m.toList, step s e = .ok (set s (insertSome (get s) e.1 (first e.1 e.2))))
    (hstep' : ∀ s, ∀ e ∈ m'.toList,
      step' s e = .ok (set s (insertSome (get s) e.1 (second e.1 e.2)))) :
    ∃ result, (m.toList.foldlM step s >>= fun s => m'.toList.foldlM step' s) =
        .ok (set s result) ∧
      ∀ k :
    α, result[k]? = ((m'[k]?.bind (second k)).or (m[k]?.bind (first k))).or (get s)[k]? := by
  obtain ⟨r, hr, hlook⟩ := list_foldlM_component get set hget hset hself first s
    (toList_keys_ne m) hstep
  obtain ⟨r', hr', hlook'⟩ := list_foldlM_component get set hget hset hself second (set s r)
    (toList_keys_ne m') hstep'
  refine ⟨r', by rw [hr, ok_bind, hr', hset], fun k => ?_⟩
  have hone : r[k]? = (m[k]?.bind (first k)).or (get s)[k]? := by
    cases hv : m[k]? with
    | none => exact (hlook k).2 (not_mem_toList hv)
    | some v => exact (hlook k).1 v (mem_of_lookup hv)
  have htwo : r'[k]? = (m'[k]?.bind (second k)).or r[k]? := by
    rw [hget] at hlook'
    cases hv : m'[k]? with
    | none => exact (hlook' k).2 (not_mem_toList hv)
    | some v => exact (hlook' k).1 v (mem_of_lookup hv)
  rw [htwo, hone, Option.or_assoc]

/-- `entry(k).or_insert(v)`. -/
def insertVacant (m : ExtTreeMap α β) (k : α) (v : β) : ExtTreeMap α β :=
  if m.contains k then m else m.insert k v

theorem getElem?_insertVacant [DecidableEq α] (m : ExtTreeMap α β) (k a : α) (v : β) :
    (insertVacant m k v)[a]? = if a = k then m[a]?.or (some v) else m[a]? := by
  unfold insertVacant
  rw [ExtTreeMap.contains_eq_isSome_getElem?]
  by_cases ha : a = k
  · subst ha
    cases hm : m[a]? with
    | none => simp
    | some w => simp [hm]
  · cases m[k]? with
    | none => simp [lookup_insert, ha]
    | some w => simp [ha]

/-- A loop that fills vacant entries puts what it holds over the others. -/
theorem foldlM_insertVacant [DecidableEq α] (get : σ → ExtTreeMap α β)
    (set : σ → ExtTreeMap α β → σ) (hget : ∀ s m, get (set s m) = m)
    (hset : ∀ s m m', set (set s m) m' = set s m') (hself : ∀ s, set s (get s) = s)
    (entries : ExtTreeMap α β) (s : σ) : entries.toList.foldlM (fun s e =>
      (pure (set s (insertVacant (get s) e.1 e.2)) : Except ε σ)) s =
        .ok (set s (insertEntries entries (get s))) := by
  have hlist : ∀ (l : List (α × β)) (s : σ),
      l.foldlM (fun s e => (pure (set s (insertVacant (get s) e.1 e.2)) : Except ε σ)) s =
        .ok (set s (l.foldl (fun t e => insertVacant t e.1 e.2) (get s))) := by
    intro l
    induction l with
    | nil =>
      intro s
      rw [List.foldl_nil, hself]
      rfl
    | cons e l ih =>
      intro s
      rw [List.foldlM_cons, List.foldl_cons]
      show l.foldlM _ (set s (insertVacant (get s) e.1 e.2)) = _
      rw [ih, hget, hset]
  have hstep : ∀ (t : ExtTreeMap α β) k v, entries[k]? = some v → ∀ j,
      (insertVacant t k v)[j]? = if j = k then t[k]?.or (some v) else t[j]? := by
    intro t k v _ j
    rw [getElem?_insertVacant]
    by_cases hj : j = k
    · subst hj
      rfl
    · rw [if_neg hj, if_neg hj]
  rw [hlist, ← ExtTreeMap.foldl_eq_foldl_toList (f := insertVacant)]
  congr 2
  refine ExtTreeMap.ext_getElem? fun k => ?_
  have hlook := foldl_lookup (fun (t : ExtTreeMap α β) j => t[j]?)
    (fun _ v old => old.or (some v)) (s := get s) hstep k
  refine hlook.trans ?_
  rw [getElem?_insertEntries]
  cases entries[k]? <;> simp

theorem eq_of_sub_of_size {m m' : ExtTreeMap α β}
    (hsub : ∀ (k : α) (v : β), m[k]? = some v → m'[k]? = some v) (hsize : m.size = m'.size) :
    m = m' := by
  have hnodup : m.toList.Nodup := (toList_keys_ne m).imp fun hne heq => hne (by rw [heq])
  have hsubset : m.toList ⊆ m'.toList := fun e he =>
    mem_of_lookup (hsub e.1 e.2 (lookup_of_mem he))
  have hlength : m'.toList.length ≤ m.toList.length := by
    exact Nat.le_of_eq (by rw [ExtTreeMap.length_toList, ExtTreeMap.length_toList, hsize])
  have hperm := (List.subperm_of_subset hnodup hsubset).perm_of_length_le hlength
  refine ExtTreeMap.ext_getElem? fun k => ?_
  cases hv : m'[k]? with
  | some v => exact lookup_of_mem (hperm.mem_iff.mpr (mem_of_lookup hv))
  | none =>
    cases hv' : m[k]? with
    | none => rfl
    | some v => rw [hsub k v hv'] at hv; cases hv

end Insert

/-! ## 5. Counting -/

theorem countP_add_countP {α : Type} {p q r : α → Bool} (hr : ∀ a, r a = (p a || q a))
    (hd : ∀ a, p a = true → q a = false) :
    ∀ l : List α, l.countP r = l.countP p + l.countP q
  | [] => rfl
  | a :: l => by
      have ih := countP_add_countP hr hd l
      simp only [List.countP_cons, hr a]
      cases hp : p a
      · cases hq : q a <;> simp <;> omega
      · simp [hd a hp]
        omega

theorem countP_filterMap {α β γ : Type} [Ord α] [Std.TransOrd α] (m : ExtTreeMap α β)
    (f : α → β → Option γ) (p : α × γ → Bool) :
    (m.filterMap f).toList.countP p =
      m.toList.countP fun e => ((f e.1 e.2).map fun w => p (e.1, w)).getD false := by
  rw [ExtTreeMap.toList_filterMap, List.countP_filterMap]
  congr 1
  funext e
  cases f e.1 e.2 <;> rfl

end Lithograph.Library
