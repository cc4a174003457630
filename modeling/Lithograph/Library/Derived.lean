/-
  File:      Lithograph/Library/Derived.lean
  Subject:   A table of rows that are derived owner by owner, and its upkeep.

  * `Holds.upkeep`: the old rows of the other owners beside the new rows of those that changed are
    the rows of the table derived from the start.
-/
import Lithograph.Library.TreeMap

namespace Lithograph.Library

open Std

variable {ε O V : Type} [Ord O] [TransOrd O] [LawfulEqOrd O] [DecidableEq O]

/-! ## 1. Rows -/

/-- The numbered rows of owners. -/
abbrev RowTable (O V : Type) [Ord O] := ExtTreeMap (O × Nat) V

/-- The rows of one owner, written under their numbers. -/
def insertRows (table : RowTable O V) (owner : O) (rows : List V) : RowTable O V :=
  rows.zipIdx.foldl (fun table e => table.insert (owner, e.2) e.1) table

/-- The table of the rows of each owner, one owner after the other. -/
def derive (rows : O → Except ε (List V)) (owners : List O) : Except ε (RowTable O V) :=
  owners.foldlM (fun table owner => do
    let found ← rows owner
    pure (insertRows table owner found)) ∅

/-- **The table holds the rows of each owner**, under their numbers. -/
def Holds (rows : O → Except ε (List V)) (t : RowTable O V) : Prop :=
  ∀ o : O, ∃ found, rows o = .ok found ∧ ∀ i : Nat, t[(o, i)]? = found[i]?

theorem getElem?_insertRows_from (owner : O) (key : O × Nat) :
    ∀ (rows : List V) (n : Nat) (table : RowTable O V),
      ((rows.zipIdx n).foldl (fun table e => table.insert (owner, e.2) e.1) table)[key]? =
        (if key.1 = owner ∧ n ≤ key.2 then rows[key.2 - n]? else none).or table[key]?
  | [], n, table => by simp
  | row :: rows, n, table => by
    rw [List.zipIdx_cons, List.foldl_cons, getElem?_insertRows_from owner key rows (n + 1),
      lookup_insert]
    obtain ⟨o, i⟩ := key
    by_cases ho : o = owner
    · subst ho
      by_cases hi : i = n
      · subst hi
        have hlt : ¬ i + 1 ≤ i := by omega
        simp [hlt]
      · have hne : ((o, i) : O × Nat) ≠ (o, n) := fun h => hi (Prod.mk.inj h).2
        rw [if_neg hne]
        by_cases hlt : n + 1 ≤ i
        · rw [if_pos ⟨rfl, hlt⟩, if_pos ⟨rfl, Nat.le_of_succ_le hlt⟩,
            show i - n = i - (n + 1) + 1 by omega, List.getElem?_cons_succ]
        · rw [if_neg (fun h => hlt h.2), if_neg (fun h => hlt (by have := h.2; omega))]
    · have hne : ((o, i) : O × Nat) ≠ (owner, n) := fun h => ho (Prod.mk.inj h).1
      rw [if_neg (fun h => ho h.1), if_neg hne, if_neg (fun h => ho h.1)]

/-- **What a table has after the rows of an owner.** -/
theorem getElem?_insertRows (table : RowTable O V) (owner : O) (rows : List V) (key : O × Nat) :
    (insertRows table owner rows)[key]? =
      (if key.1 = owner then rows[key.2]? else none).or table[key]? := by
  unfold insertRows
  rw [getElem?_insertRows_from owner key rows 0 table]
  simp

omit [LawfulEqOrd O] [DecidableEq O] in
/-- Rows derived and written one by one are derived, then written. -/
theorem foldlM_insertRow {α : Type} (owner : O) (row : α → Except ε V) :
    ∀ (items : List α) (n : Nat) (table : RowTable O V),
      (items.zipIdx n).foldlM (fun table e => do
          let value ← row e.1
          pure (table.insert (owner, e.2) value)) table =
        (do
          let found ← items.mapM row
          pure ((found.zipIdx n).foldl (fun table e => table.insert (owner, e.2) e.1) table))
  | [], n, table => rfl
  | item :: items, n, table => by
    rw [List.zipIdx_cons, List.foldlM_cons, List.mapM_cons]
    cases hrow : row item with
    | error e => rfl
    | ok value =>
      simp only [ok_bind, pure_bind, foldlM_insertRow owner row items (n + 1), bind_assoc,
        List.zipIdx_cons, List.foldl_cons]

theorem mapM_congr_mem {α β : Type} {f g : α → Except ε β} :
    ∀ {l : List α}, (∀ a ∈ l, f a = g a) → l.mapM f = l.mapM g
  | [], _ => rfl
  | a :: l, h => by
    rw [List.mapM_cons, List.mapM_cons, h a List.mem_cons_self,
      mapM_congr_mem fun b hb => h b (.tail _ hb)]

/-! ## 2. Derived tables -/

variable {rows rows' : O → Except ε (List V)} {owners : List O} {t : RowTable O V}
  {hidden : O → Bool}

omit [DecidableEq O] in
omit [LawfulEqOrd O] in
theorem derive_total (h : ∀ o ∈ owners, ∃ found, rows o = .ok found) :
    ∃ t, derive rows owners = .ok t := by
  refine list_foldlM_total fun table o ho => ?_
  obtain ⟨found, hfound⟩ := h o ho
  exact ⟨insertRows table o found, by rw [hfound]; rfl⟩

/-- Deriving goes through owner by owner. -/
theorem derive_from : ∀ {owners : List O} {table t : RowTable O V},
    owners.foldlM (fun table owner => do
        let found ← rows owner
        pure (insertRows table owner found)) table = .ok t →
      (∀ o ∈ owners, ∃ found, rows o = .ok found ∧ ∀ i : Nat, t[(o, i)]? =
        (found[i]?).or table[(o, i)]?) ∧
      ∀ o, o ∉ owners → ∀ i : Nat, t[(o, i)]? = table[(o, i)]?
  | [], table, t, h => by
    cases h
    exact ⟨fun o ho => absurd ho List.not_mem_nil, fun _ _ _ => rfl⟩
  | o :: owners, table, t, h => by
    obtain ⟨middle, hone, h⟩ := bind_eq_ok.mp h
    obtain ⟨found, hfound, hone⟩ := bind_eq_ok.mp hone
    cases hone
    obtain ⟨hin, hout⟩ := derive_from h
    have hmiddle : ∀ o' (i : Nat), (insertRows table o found)[(o', i)]? =
        (if o' = o then found[i]? else none).or table[(o', i)]? := fun o' i =>
      getElem?_insertRows table o found (o', i)
    refine ⟨fun o' ho' => ?_, fun o' ho' i => ?_⟩
    · by_cases hrest : o' ∈ owners
      · obtain ⟨found', hfound', hlook⟩ := hin o' hrest
        refine ⟨found', hfound', fun i => ?_⟩
        rw [hlook, hmiddle]
        by_cases heq : o' = o
        · subst heq
          rw [hfound] at hfound'
          cases hfound'
          rw [if_pos rfl]
          cases found[i]? <;> rfl
        · rw [if_neg heq]
          rfl
      · have heq : o' = o := (List.mem_cons.mp ho').resolve_right hrest
        subst heq
        refine ⟨found, hfound, fun i => ?_⟩
        rw [hout o' hrest, hmiddle, if_pos rfl]
    · rw [hout o' (fun hin => ho' (.tail _ hin)), hmiddle,
        if_neg (fun heq : o' = o => ho' (heq ▸ (.head _)))]
      rfl

/-- **A derived table has the rows of its owners**, and no others. -/
theorem derive_ok (h : derive rows owners = .ok t) :
    (∀ o ∈ owners, ∃ found, rows o = .ok found ∧ ∀ i : Nat, t[(o, i)]? = found[i]?) ∧
      ∀ o, o ∉ owners → ∀ i : Nat, t[(o, i)]? = none := by
  obtain ⟨hin, hout⟩ := derive_from h
  refine ⟨fun o ho => ?_, fun o ho i => ?_⟩
  · obtain ⟨found, hfound, hlook⟩ := hin o ho
    exact ⟨found, hfound, fun i => by rw [hlook]; simp⟩
  · rw [hout o ho]
    simp

omit [DecidableEq O] in
theorem Holds.unique {t t' : RowTable O V} (h : Holds rows t) (h' : Holds rows t') : t = t' := by
  refine ExtTreeMap.ext_getElem? fun key => ?_
  obtain ⟨found, hfound, hlook⟩ := h key.1
  obtain ⟨found', hfound', hlook'⟩ := h' key.1
  rw [hfound] at hfound'
  cases hfound'
  exact (hlook key.2).trans (hlook' key.2).symm

omit [DecidableEq O] in
omit [LawfulEqOrd O] in
theorem Holds.congr (h : Holds rows t) (hrows : ∀ o, rows' o = rows o) :
    Holds rows' t := fun o => by
  rw [hrows o]
  exact h o

/-- **Deriving makes the table of the rows of each owner.** -/
theorem derive_iff (hcover : ∀ o, o ∉ owners → rows o = .ok []) :
    derive rows owners = .ok t ↔ Holds rows t := by
  have hholds : ∀ {t}, derive rows owners = .ok t → Holds rows t := by
    intro t h o
    obtain ⟨hin, hout⟩ := derive_ok h
    by_cases ho : o ∈ owners
    · exact hin o ho
    · exact ⟨[], hcover o ho, fun i => by rw [hout o ho]; rfl⟩
  refine ⟨hholds, fun h => ?_⟩
  have htotal : ∃ t, derive rows owners = .ok t := derive_total fun o _ => by
    obtain ⟨found, hfound, _⟩ := h o
    exact ⟨found, hfound⟩
  obtain ⟨t', ht'⟩ := htotal
  rw [ht', (hholds ht').unique h]

omit [LawfulEqOrd O] [DecidableEq O] in
theorem derive_empty (owners : List O) :
    derive (fun _ => .ok []) owners = (.ok ∅ : Except ε (RowTable O V)) := by
  unfold derive
  induction owners with
  | nil => rfl
  | cons o owners ih =>
    exact ih

/-! ## 3. Upkeep -/

/-- The rows of a table whose owners are not hidden. -/
def visibleRows (hidden : O → Bool) (table : RowTable O V) : List ((O × Nat) × V) :=
  table.toList.filter fun e => !hidden e.1.1

omit [DecidableEq O] in
theorem nodup_toList (table : RowTable O V) : table.toList.Nodup :=
  (toList_keys_ne table).imp fun hne heq => hne (congrArg Prod.fst heq)

omit [DecidableEq O] in
theorem mem_visibleRows {table : RowTable O V} {key : O × Nat} {v : V} :
    (key, v) ∈ visibleRows hidden table ↔ hidden key.1 = false ∧ table[key]? = some v := by
  unfold visibleRows
  rw [List.mem_filter, Bool.not_eq_true', and_comm]
  exact and_congr_right fun _ => ⟨lookup_of_mem, mem_of_lookup⟩

omit [DecidableEq O] in
/-- The rows of two tables are those of a third that agrees with each on its owners. -/
theorem perm_rows {new old fresh : RowTable O V}
    (hnew : ∀ o, hidden o = false → ∀ i : Nat, new[(o, i)]? = none)
    (hhidden : ∀ o, hidden o = true → ∀ i : Nat, fresh[(o, i)]? = new[(o, i)]?)
    (hvisible : ∀ o, hidden o = false → ∀ i : Nat, fresh[(o, i)]? = old[(o, i)]?) :
    (new.toList ++ visibleRows hidden old).Perm fresh.toList := by
  have hmem : ∀ {table : RowTable O V} {key : O × Nat} {v : V},
      (key, v) ∈ table.toList ↔ table[key]? = some v :=
    ⟨lookup_of_mem, mem_of_lookup⟩
  refine (List.perm_ext_iff_of_nodup ?_ (nodup_toList fresh)).mpr fun e => ?_
  · refine List.nodup_append.mpr ⟨nodup_toList new, (nodup_toList old).filter _, ?_⟩
    intro a ha b hb hab
    subst hab
    have hlook := hmem.mp (show (a.1, a.2) ∈ new.toList from ha)
    rw [hnew a.1.1 (mem_visibleRows.mp (show (a.1, a.2) ∈ _ from hb)).1] at hlook
    cases hlook
  · obtain ⟨⟨o, i⟩, v⟩ := e
    rw [List.mem_append, mem_visibleRows, hmem, hmem]
    cases hh : hidden o with
    | true =>
      rw [hhidden o hh i]
      simp
    | false =>
      rw [hvisible o hh i, hnew o hh i]
      simp

/-- **Upkeep is exact**: new rows of the hidden owners beside the old rows of the others are the
table derived from the start; the one goes through where the other does. -/
theorem Holds.upkeep {changed : List O} {old : RowTable O V}
    (hold : Holds rows old) (hhidden : ∀ o, hidden o = true ↔ o ∈ changed)
    (hsame : ∀ o, hidden o = false → rows' o = rows o) :
    (∀ new, derive rows' changed = .ok new → ∃ fresh, Holds rows' fresh ∧
      (new.toList ++ visibleRows hidden old).Perm fresh.toList) ∧
    ∀ fresh, Holds rows' fresh → (∃ new, derive rows' changed = .ok new) ∧
      ∀ o, hidden o = false → ∀ i : Nat, fresh[(o, i)]? = old[(o, i)]? := by
  have hagree : ∀ {fresh}, Holds rows' fresh → ∀ o, hidden o = false →
      ∀ i : Nat, fresh[(o, i)]? = old[(o, i)]? := by
    intro fresh hfresh o ho i
    obtain ⟨found, hfound, hlook⟩ := hold o
    obtain ⟨found', hfound', hlook'⟩ := hfresh o
    rw [hsame o ho, hfound] at hfound'
    cases hfound'
    exact (hlook' i).trans (hlook i).symm
  refine ⟨fun new hnew => ?_, fun fresh hfresh => ⟨derive_total fun o _ => ?_, hagree hfresh⟩⟩
  · obtain ⟨hin, hout⟩ := derive_ok hnew
    have hnone : ∀ o, hidden o = false → o ∉ changed := fun o ho hmem => by
      rw [(hhidden o).mpr hmem] at ho
      cases ho
    -- the owners of the whole table: those of the old one and those that changed
    have htotal : ∃ fresh, derive rows' (old.toList.map (fun e => e.1.1) ++ changed) = .ok fresh :=
      derive_total fun o _ => by
        cases hh : hidden o with
        | true =>
          obtain ⟨found, hfound, _⟩ := hin o ((hhidden o).mp hh)
          exact ⟨found, hfound⟩
        | false =>
          obtain ⟨found, hfound, _⟩ := hold o
          exact ⟨found, (hsame o hh).trans hfound⟩
    obtain ⟨fresh, hfresh⟩ := htotal
    have hholds : Holds rows' fresh := (derive_iff fun o ho => by
      obtain ⟨found, hfound, hlook⟩ := hold o
      have hh : hidden o = false := by
        cases hh : hidden o with
        | false => rfl
        | true => exact absurd (List.mem_append_right _ ((hhidden o).mp hh)) ho
      rw [hsame o hh, hfound]
      cases found with
      | nil => rfl
      | cons v found =>
        have hfirst : old[(o, 0)]? = some v := hlook 0
        exact absurd (List.mem_append_left _
          (List.mem_map.mpr ⟨((o, 0), v), mem_of_lookup hfirst, rfl⟩)) ho).mp hfresh
    refine ⟨fresh, hholds, perm_rows (fun o ho => hout o (hnone o ho)) (fun o ho i => ?_)
      (hagree hholds)⟩
    obtain ⟨found, hfound, hlook⟩ := hin o ((hhidden o).mp ho)
    obtain ⟨found', hfound', hlook'⟩ := hholds o
    rw [hfound] at hfound'
    cases hfound'
    exact (hlook' i).trans (hlook i).symm
  · obtain ⟨found, hfound, _⟩ := hfresh o
    exact ⟨found, hfound⟩

end Lithograph.Library
