/-
  File:      Lithograph/Storage/Identity.lean
  Subject:   The dictionaries of a database: labels, relationship types and property keys by id and
             by name (`storage/identity.rs`).
-/
import Lithograph.Storage.Encoding

namespace Lithograph.Storage

/-- One dictionary table. -/
structure Dictionary where
  rows : List (Int × Text) := []
  ids_nodup : (rows.map Prod.fst).Nodup := by simp
  names_nodup : (rows.map Prod.snd).Nodup := by simp

/-- A dictionary before its first name. -/
def Dictionary.empty : Dictionary := {}

/-- A dictionary of one name. -/
def Dictionary.single (id : Int) (name : Text) : Dictionary where
  rows := [(id, name)]

/-- `name_for_id`. -/
def Dictionary.nameOf (dictionary : Dictionary) (id : Int) : Option Text :=
  (dictionary.rows.find? fun row => row.1 == id).map Prod.snd

/-- `find_name`. -/
def Dictionary.find (dictionary : Dictionary) (name : Text) : Option Int :=
  (dictionary.rows.find? fun row => row.2 == name).map Prod.fst

theorem find_row {α κ : Type} [BEq κ] [LawfulBEq κ] {key : α → κ} {rows : List α}
    (hnodup : (rows.map key).Nodup) {row : α} {k : κ} :
    rows.find? (fun row => key row == k) = some row ↔ row ∈ rows ∧ key row = k := by
  constructor
  · intro h
    exact ⟨List.mem_of_find?_eq_some h, by simpa using List.find?_some h⟩
  · rintro ⟨hmem, rfl⟩
    induction rows with
    | nil => cases hmem
    | cons first rest ih =>
      rw [List.map_cons, List.nodup_cons] at hnodup
      by_cases hfirst : key first = key row
      · rcases List.mem_cons.mp hmem with rfl | hmem
        · simp
        · exact absurd (hfirst ▸ List.mem_map_of_mem hmem) hnodup.1
      · rcases List.mem_cons.mp hmem with rfl | hmem
        · exact absurd rfl hfirst
        · rw [List.find?_cons_of_neg (by simpa using hfirst)]
          exact ih hnodup.2 hmem

variable {dictionary : Dictionary} {name : Text}

theorem Dictionary.nameOf_iff {id : Int} :
    dictionary.nameOf id = some name ↔ (id, name) ∈ dictionary.rows := by
  unfold Dictionary.nameOf
  rw [Option.map_eq_some_iff]
  constructor
  · rintro ⟨⟨id', name'⟩, hfind, rfl⟩
    obtain ⟨hmem, rfl⟩ := (find_row dictionary.ids_nodup).mp hfind
    exact hmem
  · intro hmem
    exact ⟨(id, name), (find_row dictionary.ids_nodup).mpr ⟨hmem, rfl⟩, rfl⟩

theorem Dictionary.find_iff {id : Int} :
    dictionary.find name = some id ↔ (id, name) ∈ dictionary.rows := by
  unfold Dictionary.find
  rw [Option.map_eq_some_iff]
  constructor
  · rintro ⟨⟨id', name'⟩, hfind, rfl⟩
    obtain ⟨hmem, rfl⟩ := (find_row dictionary.names_nodup).mp hfind
    exact hmem
  · intro hmem
    exact ⟨(id, name), (find_row dictionary.names_nodup).mpr ⟨hmem, rfl⟩, rfl⟩

/-- **Names and ids are looked up both ways.** -/
theorem Dictionary.find_nameOf {id : Int} :
    dictionary.find name = some id ↔ dictionary.nameOf id = some name :=
  find_iff.trans nameOf_iff.symm

end Lithograph.Storage
