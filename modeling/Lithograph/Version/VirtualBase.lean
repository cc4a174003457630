/-
  File:      Lithograph/Version/VirtualBase.lean
  Subject:   The virtual base of a merge (`query/version/merge/virtual_base.rs`).

  Several merge bases are put together slot by slot: the first two by a three-way merge over their
  own best common ancestors, each further one by comparison. A slot is known with a value, known to
  be absent, or unknown.

  * **`virtualBase_sound`**: all of it for every commit graph.
-/
import Mathlib.Data.List.Permutation
import Lithograph.Version.LogicalSlots
import Lithograph.Version.MergeBases

namespace Lithograph.Version

open Std Library Storage Cypher Query

/-! ## 1. Slots that may be unknown -/

/-- `VirtualValue`, and `Selection`. -/
inductive VirtualValue where
  | known (value : Option Value)
  | unknown

abbrev VirtualSlots := ExtTreeMap Text VirtualValue

/-- `current.get(key).unwrap_or(&VirtualValue::Known(None))`. -/
def VirtualSlots.slot (slots : VirtualSlots) (key : Text) : VirtualValue :=
  slots[key]?.getD (.known none)

def fromLogicalSlots (slots : VersionSlots) : VirtualSlots :=
  slots.foldl (fun (output : VirtualSlots) slot value => output.insert slot (.known (some value))) ∅

def mergeSlots (base : VirtualSlots) (ours theirs : VersionSlots) : ExtTreeSet Text :=
  (base.keys ++ ours.keys ++ theirs.keys).foldl (fun (slots : ExtTreeSet Text) key =>
    if slots.contains key then slots else slots.insert key) ∅

def selectValue (base : Option VirtualValue) (ours theirs : Option Value) : VirtualValue :=
  if sameOptionalValue ours theirs then .known ours
  else match base.getD (.known none) with
    | .known base =>
      if sameOptionalValue ours base then .known theirs
      else if sameOptionalValue theirs base then .known ours
      else .unknown
    | .unknown => .unknown

def sameKnownValue : VirtualValue → Option Value → Bool
  | .known left, right => sameOptionalValue left right
  | .unknown, _ => false

/-- `insert_selection`, and `insert_virtual`: what is known to be absent has no entry. -/
def insertSelection (output : VirtualSlots) (key : Text) : VirtualValue → VirtualSlots
  | .known none => output
  | selection => output.insert key selection

/-- The merge of three, slot by slot. -/
def mergeValues (base : VirtualSlots) (ours theirs : VersionSlots) : VirtualSlots :=
  (mergeSlots base ours theirs).toList.foldl (fun merged slot =>
    insertSelection merged slot (selectValue base[slot]? ours[slot]? theirs[slot]?)) ∅

/-- One more base, slot by slot. -/
def combineValues (current : VirtualSlots) (right : VersionSlots) : VirtualSlots :=
  (mergeSlots current right ∅).toList.foldl (fun next key =>
    insertSelection next key
      (if sameKnownValue (current.slot key) right[key]? then current.slot key else .unknown)) ∅

/-! ## 2. The recursion -/

/-- What a merge reads: the commits, their states, and the dictionaries. -/
structure MergeSource where
  commits : Commits
  connection : Connection
  loadState : HashId → QueryResult SnapshotState

namespace MergeSource

variable (m : MergeSource)

def loadSlots (commit : HashId) : QueryResult VersionSlots := do
  let state ← m.loadState commit
  logicalSlots m.connection state

/-- `virtual_merge_commits`, over the virtual base of the bases. -/
def virtualMergeCommits (virtualBase : List HashId → QueryResult (Option VirtualSlots))
    (ours theirs : HashId) : QueryResult (Option VirtualSlots) := do
  match ← ofStorage (bestCommonAncestors m.commits ours theirs) with
  | none => pure none
  | some bases =>
    match ← virtualBase bases with
    | none => pure none
    | some base => do
      let ours ← m.loadSlots ours
      let theirs ← m.loadSlots theirs
      pure (some (mergeValues base ours theirs))

/-- The loop over the bases behind the first two. -/
def combineCommit (current : VirtualSlots) (commit : HashId) : QueryResult VirtualSlots := do
  let right ← m.loadSlots commit
  pure (combineValues current right)

/-- `virtual_base`, with one unit of fuel for each merge inside another. -/
def virtualBaseWithin : Nat → List HashId → QueryResult (Option VirtualSlots)
  | _, [] => .ok (some ∅)
  | _, [first] => do
    let slots ← m.loadSlots first
    pure (some (fromLogicalSlots slots))
  | 0, _ :: _ :: _ => .ok none
  | fuel + 1, first :: second :: rest => do
    match ← m.virtualMergeCommits (virtualBaseWithin fuel) first second with
    | none => pure none
    | some current => do
      let slots ← rest.foldlM m.combineCommit current
      pure (some slots)

def virtualBase (bases : List HashId) : QueryResult (Option VirtualSlots) :=
  m.virtualBaseWithin (m.commits.size + 1) bases

end MergeSource

/-! ## 3. One slot -/

variable {key : Text} {a b value : Option Value} {commit first second : HashId}
  {rest bases : List HashId} {slots slots' : VirtualSlots}

theorem slot_insert_other (output : VirtualSlots) {other : Text} (h : other ≠ key) :
    ∀ selection, (insertSelection output key selection).slot other = output.slot other
  | .unknown => by
    unfold VirtualSlots.slot
    rw [insertSelection, lookup_insert, if_neg h]
    exact fun h => by cases h
  | .known none => rfl
  | .known (some value) => by
    unfold VirtualSlots.slot
    rw [insertSelection, lookup_insert, if_neg h]
    exact fun h => by cases h

theorem slot_insert_self {output : VirtualSlots} : ∀ {selection},
    output.slot key = .known none ∨ output.slot key = selection →
      (insertSelection output key selection).slot key = selection
  | .unknown, _ => by
    unfold VirtualSlots.slot
    rw [insertSelection, lookup_insert, if_pos rfl]
    · rfl
    · exact fun h => by cases h
  | .known none, h => h.elim id id
  | .known (some value), _ => by
    unfold VirtualSlots.slot
    rw [insertSelection, lookup_insert, if_pos rfl]
    · rfl
    · exact fun h => by cases h

theorem slot_foldl (select : Text → VirtualValue) {key : Text} : ∀ (keys : List Text)
    {output : VirtualSlots}, output.slot key = .known none ∨ output.slot key = select key →
      (key ∈ keys → (keys.foldl (fun output slot => insertSelection output slot (select slot))
        output).slot key = select key) ∧
      (key ∉ keys → (keys.foldl (fun output slot => insertSelection output slot (select slot))
        output).slot key = output.slot key)
  | [], output, _ => ⟨fun h => absurd h List.not_mem_nil, fun _ => rfl⟩
  | first :: rest, output, h => by
    rw [List.foldl_cons]
    by_cases heq : key = first
    · subst heq
      have hself := slot_insert_self h
      have hrest := slot_foldl select rest (Or.inr hself)
      refine ⟨fun _ => ?_, fun hnot => absurd (.head _) hnot⟩
      by_cases hmem : key ∈ rest
      · exact hrest.1 hmem
      · rw [hrest.2 hmem, hself]
    · have hother := slot_insert_other output heq (select first)
      have hrest := slot_foldl select rest (hother.symm ▸ h)
      rw [List.mem_cons, or_iff_right heq, hother] at *
      exact hrest

theorem mem_mergeSlots {base : VirtualSlots} {ours theirs : VersionSlots} :
    key ∈ mergeSlots base ours theirs ↔ key ∈ base ∨ key ∈ ours ∨ key ∈ theirs := by
  have hfold : ∀ (keys : List Text) (slots : ExtTreeSet Text),
      key ∈ keys.foldl (fun (slots : ExtTreeSet Text) key =>
        if slots.contains key then slots else slots.insert key) slots ↔
          key ∈ slots ∨ key ∈ keys := by
    intro keys
    induction keys with
    | nil =>
      simp
    | cons first rest ih =>
      intro slots
      rw [List.foldl_cons, ih, List.mem_cons]
      split
      next hseen =>
        grind
      · grind
  unfold mergeSlots
  rw [hfold, List.mem_append, List.mem_append, ExtTreeMap.mem_keys, ExtTreeMap.mem_keys,
    ExtTreeMap.mem_keys, or_assoc]
  simp

theorem none_of_not_mem {α : Type} {slots : ExtTreeMap Text α} (h : key ∉ slots) :
    slots[key]? = none := by
  by_contra hsome
  exact h (ExtTreeMap.mem_iff_isSome_getElem?.mpr (Option.isSome_iff_ne_none.mpr hsome))

theorem slot_empty (key : Text) : (∅ : VirtualSlots).slot key = .known none := by
  unfold VirtualSlots.slot
  rfl

/-- **One slot of a merge of three.** -/
theorem slot_merged (base : VirtualSlots) (ours theirs : VersionSlots) (key : Text) :
    (mergeValues base ours theirs).slot key =
      selectValue (some (base.slot key)) ours[key]? theirs[key]? := by
  obtain ⟨hmem, hnot⟩ := slot_foldl
    (fun slot => selectValue base[slot]? ours[slot]? theirs[slot]?)
    (mergeSlots base ours theirs).toList (Or.inl (slot_empty key))
  rw [ExtTreeSet.mem_toList, mem_mergeSlots] at hmem hnot
  by_cases hkey : key ∈ base ∨ key ∈ ours ∨ key ∈ theirs
  · exact hmem hkey
  · unfold mergeValues
    rw [hnot hkey, slot_empty]
    rw [not_or, not_or] at hkey
    rw [none_of_not_mem hkey.2.1, none_of_not_mem hkey.2.2]
    rfl

/-- A slot as it is, where the next base has the same. -/
def combineSlot (current : VirtualValue) (right : Option Value) : VirtualValue :=
  if sameKnownValue current right then current else .unknown

/-- **One slot with one more base.** -/
theorem slot_combined (current : VirtualSlots) (right : VersionSlots) (key : Text) :
    (combineValues current right).slot key = combineSlot (current.slot key) right[key]? := by
  obtain ⟨hmem, hnot⟩ := slot_foldl
    (fun slot => combineSlot (current.slot slot) right[slot]?)
    (mergeSlots current right ∅).toList (Or.inl (slot_empty key))
  rw [ExtTreeSet.mem_toList, mem_mergeSlots] at hmem hnot
  by_cases hkey : key ∈ current ∨ key ∈ right ∨ key ∈ (∅ : VersionSlots)
  · exact hmem hkey
  · have hslot : (combineValues current right).slot key = (∅ : VirtualSlots).slot key := hnot hkey
    rw [hslot, slot_empty]
    rw [not_or, not_or] at hkey
    unfold VirtualSlots.slot
    rw [none_of_not_mem hkey.1, none_of_not_mem hkey.2.1]
    rfl

theorem slot_fromLogicalSlots (slots : VersionSlots) (key : Text) :
    (fromLogicalSlots slots).slot key = .known slots[key]? := by
  have hstep : ∀ (output : VirtualSlots) slot value, slots[slot]? = some value → ∀ other,
      (output.insert slot (.known (some value)))[other]? =
        if other = slot then some (.known (some value)) else output[other]? :=
    fun output slot value _ other => lookup_insert output slot other _
  have hlook := foldl_lookup (fun (output : VirtualSlots) slot => output[slot]?)
    (fun _ value _ => some (.known (some value))) (s := ∅) hstep key
  unfold VirtualSlots.slot fromLogicalSlots
  rw [hlook]
  cases slots[key]? with
  | some value => rfl
  | none =>
    rfl

/-! ## 4. Many bases at one slot -/

/-- The same state of a slot: known with the same value, known to be absent, or unknown. -/
def SameState : VirtualValue → VirtualValue → Prop
  | .known left, .known right => sameOptionalValue left right = true
  | .unknown, .unknown => True
  | _, _ => False

instance : ∀ left right, Decidable (SameState left right)
  | .known left, .known right => inferInstanceAs (Decidable (sameOptionalValue left right = true))
  | .unknown, .unknown => .isTrue trivial
  | .known _, .unknown => .isFalse id
  | .unknown, .known _ => .isFalse id

theorem same_refl (a : Option Value) : sameOptionalValue a a = true :=
  sameOptionalValue_iff.mpr rfl

theorem same_symm (h : sameOptionalValue a b = true) : sameOptionalValue b a = true :=
  sameOptionalValue_iff.mpr (sameOptionalValue_iff.mp h).symm

theorem same_trans {c : Option Value} (h : sameOptionalValue a b = true)
    (h' : sameOptionalValue b c = true) : sameOptionalValue a c = true :=
  sameOptionalValue_iff.mpr ((sameOptionalValue_iff.mp h).trans (sameOptionalValue_iff.mp h'))

theorem same_congr {c : Option Value} (h : sameOptionalValue a b = true) :
    sameOptionalValue a c = sameOptionalValue b c := by
  rw [Bool.eq_iff_iff]
  exact ⟨same_trans (same_symm h), same_trans h⟩

/-- **A value that is selected is one of the two.** -/
theorem select_known {base : Option VirtualValue} {ours theirs : Option Value}
    (h : selectValue base ours theirs = .known value) : value = ours ∨ value = theirs := by
  unfold selectValue at h
  split at h
  · cases h
    exact Or.inl rfl
  split at h
  · split at h
    · cases h
      exact Or.inr rfl
    split at h
    · cases h
      exact Or.inl rfl
    · cases h
  · cases h

theorem select_same {base : Option VirtualValue} {ours theirs : Option Value}
    (h : sameOptionalValue ours theirs = true) : selectValue base ours theirs = .known ours :=
  if_pos h

/-- **The selection does not depend on which of the two comes first.** -/
theorem select_swap (base : Option VirtualValue) (ours theirs : Option Value) :
    SameState (selectValue base ours theirs) (selectValue base theirs ours) := by
  by_cases hsame : sameOptionalValue ours theirs = true
  · rw [select_same hsame, select_same (same_symm hsame)]
    exact hsame
  · have hother : ¬ sameOptionalValue theirs ours = true := fun h => hsame (same_symm h)
    unfold selectValue
    rw [if_neg hsame, if_neg hother]
    cases base.getD (.known none) with
    | unknown => trivial
    | known value =>
      simp only
      by_cases hours : sameOptionalValue ours value = true
      · have htheirs : ¬ sameOptionalValue theirs value = true :=
          fun h => hsame (same_trans hours (same_symm h))
        rw [if_pos hours, if_neg htheirs, if_pos hours]
        exact same_refl theirs
      · rw [if_neg hours]
        split
        · exact same_refl ours
        · trivial

theorem select_base (ours theirs : Option Value) :
    SameState (selectValue (some (.known ours)) ours theirs) (.known theirs) := by
  by_cases hsame : sameOptionalValue ours theirs = true
  · rw [select_same hsame]
    exact hsame
  · unfold selectValue
    rw [if_neg hsame]
    simp only [Option.getD_some]
    rw [if_pos (same_refl ours)]
    exact same_refl theirs

theorem sameState_refl : ∀ state, SameState state state
  | .known value => same_refl value
  | .unknown => trivial

theorem length_le_countP_add {α : Type} {p q : α → Bool} : ∀ {l : List α},
    (∀ a, p a = true ∨ q a = true) → l.length ≤ l.countP p + l.countP q
  | [], _ => Nat.le_refl _
  | a :: l, h => by
    have hrest := length_le_countP_add (l := l) h
    rw [List.countP_cons, List.countP_cons, List.length_cons]
    rcases h a with hp | hq
    · rw [if_pos hp]
      omega
    · rw [if_pos hq]
      omega

theorem foldl_unknown : ∀ rights : List (Option Value), rights.foldl combineSlot .unknown = .unknown
  | [] => rfl
  | _ :: rights => foldl_unknown rights

/-- **The loop over further bases** keeps a known value that all of them have. -/
theorem foldl_known : ∀ (rights : List (Option Value)) (value : Option Value),
    rights.foldl combineSlot (.known value) =
      if rights.all (sameOptionalValue value) then .known value else .unknown
  | [], _ => rfl
  | right :: rights, value => by
    rw [List.foldl_cons, List.all_cons]
    unfold combineSlot sameKnownValue
    by_cases hsame : sameOptionalValue value right = true
    · simp only [hsame, if_true, Bool.true_and]
      exact foldl_known rights value
    · simp only [hsame, Bool.false_eq_true, if_false, Bool.false_and]
      exact foldl_unknown rights

theorem foldl_eq_known {rights : List (Option Value)} {current : VirtualValue} :
    rights.foldl combineSlot current = .known value ↔
      current = .known value ∧ ∀ right ∈ rights, sameOptionalValue value right = true := by
  cases current with
  | unknown =>
    rw [foldl_unknown]
    exact ⟨fun h => (by cases h), fun h => (by cases h.1)⟩
  | known first =>
    rw [foldl_known, ← List.all_eq_true]
    constructor
    · intro h
      split at h
      next hall =>
        cases h
        exact ⟨rfl, hall⟩
      · cases h
    · intro h
      cases h.1
      rw [if_pos h.2]

theorem foldl_same {rights rights' : List (Option Value)} (hperm : rights.Perm rights') :
    ∀ {current current' : VirtualValue}, SameState current current' →
      SameState (rights.foldl combineSlot current) (rights'.foldl combineSlot current')
  | .unknown, .unknown, _ => by
    rw [foldl_unknown, foldl_unknown]
    trivial
  | .known value, .known value', h => by
    have hall : rights.all (sameOptionalValue value) = rights'.all (sameOptionalValue value') := by
      rw [hperm.all_eq]
      exact congrArg rights'.all (funext fun right => same_congr h)
    rw [foldl_known, foldl_known, hall]
    split
    · exact h
    · trivial
  | .known _, .unknown, h => by cases h
  | .unknown, .known _, h => by cases h

/-! ## 5. The recursion ends -/

namespace MergeSource

variable {m : MergeSource}

/-- The slots of a commit, where they can be loaded. -/
def slotsOf (m : MergeSource) (commit : HashId) : VersionSlots :=
  match m.loadSlots commit with
  | .ok slots => slots
  | .error _ => ∅

/-- A source whose commits form a graph and can all be loaded. -/
structure Readable (m : MergeSource) : Prop where
  graph : Acyclic m.commits
  loads : ∀ commit, Stored m.commits commit → ∃ slots, m.loadSlots commit = .ok slots

theorem Readable.load (h : m.Readable) (hstored : Stored m.commits commit) :
    m.loadSlots commit = .ok (m.slotsOf commit) := by
  obtain ⟨slots, hslots⟩ := h.loads commit hstored
  unfold slotsOf
  rw [hslots]

/-- The commits a commit can reach. -/
def depth (m : MergeSource) (commit : HashId) : Nat :=
  m.commits.keys.countP fun other => other ∈ reachableIds m.commits commit

theorem depth_le (m : MergeSource) (commit : HashId) : m.depth commit ≤ m.commits.size := by
  unfold depth
  rw [← ExtTreeMap.length_keys]
  exact List.countP_le_length

theorem mem_keys_of_stored (h : Stored m.commits commit) : commit ∈ m.commits.keys := by
  obtain ⟨row, hrow⟩ := h
  rw [ExtTreeMap.mem_keys]
  exact ExtTreeMap.mem_iff_isSome_getElem?.mpr (Option.isSome_of_eq_some hrow)

theorem depth_pos (h : Stored m.commits commit) : 0 < m.depth commit := by
  unfold depth
  rw [List.countP_pos_iff]
  refine ⟨commit, mem_keys_of_stored h, ?_⟩
  rw [decide_eq_true_eq, mem_reachableIds]
  exact .refl

theorem depth_lt (h : Acyclic m.commits) {ancestor : HashId} (hstored : Stored m.commits commit)
    (hpath : InHistory m.commits commit ancestor) (hne : ancestor ≠ commit) :
    m.depth ancestor < m.depth commit := by
  unfold depth
  refine countP_add_one_le (fun other _ hother => ?_) (mem_keys_of_stored hstored) ?_ ?_
  · rw [decide_eq_true_eq, mem_reachableIds] at hother ⊢
    exact hpath.trans hother
  · rw [decide_eq_true_eq, mem_reachableIds]
    exact .refl
  · rw [decide_eq_false_iff_not, mem_reachableIds]
    intro hback
    -- a way back would close a cycle
    rcases Relation.ReflTransGen.cases_head hpath with heq | ⟨next, hstep, hrest⟩
    · exact hne heq.symm
    · exact h.acyclic commit (Relation.TransGen.head' hstep (hrest.trans hback))

/-- **Of several bases each lies properly below both commits.** -/
theorem best_ne {left right : HashId} (h : Best m.commits left right first)
    (h' : Best m.commits left right second) (hne : first ≠ second) : first ≠ left := by
  intro heq
  have hpath : InHistory m.commits first second := heq ▸ h'.1.1
  exact h'.2 first h.1 hne hpath

theorem combine_ok (h : m.Readable) : ∀ {rest : List HashId} (current : VirtualSlots),
    (∀ commit ∈ rest, Stored m.commits commit) →
      ∃ slots, rest.foldlM m.combineCommit current = .ok slots ∧
        ∀ key, slots.slot key = (rest.map fun commit => (m.slotsOf commit)[key]?).foldl combineSlot
          (current.slot key)
  | [], current, _ => ⟨current, rfl, fun _ => rfl⟩
  | commit :: rest, current, hrest => by
    obtain ⟨slots, hslots, hslot⟩ := combine_ok h
      (combineValues current (m.slotsOf commit))
      fun other hother => hrest other (.tail _ hother)
    refine ⟨slots, ?_, fun key => ?_⟩
    · rw [List.foldlM_cons]
      unfold combineCommit
      rw [h.load (hrest commit List.mem_cons_self), ok_bind]
      exact hslots
    · rw [hslot key, slot_combined, List.map_cons, List.foldl_cons]

/-- **One merge of several bases**, over the virtual base of the first two. -/
theorem within_ok (h : m.Readable) {fuel : Nat}
    (hstored : ∀ commit ∈ first :: second :: rest, Stored m.commits commit) {base : VirtualSlots}
    (hbases : bestCommonAncestors m.commits first second = .ok (some bases))
    (hbase : m.virtualBaseWithin fuel bases = .ok (some base)) :
    ∃ slots, m.virtualBaseWithin (fuel + 1) (first :: second :: rest) = .ok (some slots) ∧
      ∀ key, slots.slot key = (rest.map fun commit => (m.slotsOf commit)[key]?).foldl combineSlot
        (selectValue (some (base.slot key)) (m.slotsOf first)[key]? (m.slotsOf second)[key]?) := by
  have hfirst := h.load (hstored first (.head _))
  have hsecond := h.load (hstored second (.tail _ (.head _)))
  obtain ⟨slots, hslots, hslot⟩ := combine_ok h
    (mergeValues base (m.slotsOf first) (m.slotsOf second)) fun commit hcommit =>
      hstored commit (.tail _ (.tail _ hcommit))
  have hmerge : m.virtualMergeCommits (m.virtualBaseWithin fuel) first second =
      .ok (some (mergeValues base (m.slotsOf first) (m.slotsOf second))) := by
    unfold virtualMergeCommits
    rw [hbases, hfirst, hsecond]
    simp only [ofStorage, ok_bind, hbase]
    rfl
  refine ⟨slots, ?_, fun key => ?_⟩
  · unfold virtualBaseWithin
    rw [hmerge, ok_bind]
    simp only
    rw [hslots]
    rfl
  · rw [hslot key, slot_merged]

theorem bases_below (h : m.Readable) (hfirst : Stored m.commits first)
    (hsecond : Stored m.commits second) : ∃ bases,
      bestCommonAncestors m.commits first second = .ok (some bases) ∧
      (∀ commit ∈ bases, Stored m.commits commit) ∧
      ∀ a b others, bases = a :: b :: others → m.depth a < m.depth first := by
  obtain ⟨bases, hbases, hascending, hbest⟩ := walk_best h.graph hfirst hsecond
  refine ⟨bases, hbases, fun commit hcommit => ?_, fun a b others heq => ?_⟩
  · exact InHistory.stored h.graph hfirst ((hbest commit).mp hcommit).1.1
  · have ha := (hbest a).mp (heq ▸ (.head _))
    have hb := (hbest b).mp (heq ▸ .tail _ (.head _))
    have hne : a ≠ b := by
      intro hab
      rw [heq, hab] at hascending
      have hlt := (List.pairwise_cons.mp hascending).1 b (.head _)
      rw [ReflOrd.compare_self] at hlt
      cases hlt
    exact depth_lt h.graph hfirst ha.1.1 (best_ne ha hb hne)

/-- **The recursion ends.** -/
theorem within_ends (h : m.Readable) : ∀ (fuel : Nat) {bases : List HashId},
    (∀ commit ∈ bases, Stored m.commits commit) →
      (∀ first second rest, bases = first :: second :: rest → m.depth first ≤ fuel) →
        ∃ slots, m.virtualBaseWithin fuel bases = .ok (some slots)
  | fuel, [], _, _ => ⟨∅, by cases fuel <;> rfl⟩
  | fuel, [first], hstored, _ => by
    have hload := h.load (hstored first (.head _))
    refine ⟨fromLogicalSlots (m.slotsOf first), ?_⟩
    cases fuel with
    | zero =>
      unfold virtualBaseWithin
      rw [hload]
      rfl
    | succ fuel =>
      unfold virtualBaseWithin
      rw [hload]
      rfl
  | 0, first :: second :: rest, hstored, hdepth => by
    have hpos := depth_pos (hstored first (.head _))
    have hle := hdepth first second rest rfl
    omega
  | fuel + 1, first :: second :: rest, hstored, hdepth => by
    obtain ⟨bases, hbases, hinner, hless⟩ := bases_below h (hstored first (.head _))
      (hstored second (.tail _ (.head _)))
    obtain ⟨base, hbase⟩ := within_ends h fuel hinner fun a b others heq => by
      have hlt := hless a b others heq
      have hle := hdepth first second rest rfl
      omega
    obtain ⟨slots, hslots, _⟩ := within_ok h hstored hbases hbase
    exact ⟨slots, hslots⟩

theorem virtualBase_ends (h : m.Readable) (hstored : ∀ commit ∈ bases, Stored m.commits commit) :
    ∃ slots, m.virtualBase bases = .ok (some slots) :=
  within_ends h _ hstored fun first _ _ _ => (m.depth_le first).trans (Nat.le_succ _)

/-! ## 6. What the virtual base says of a slot -/

/-- **The slots of a virtual base**, folded from the slots of the bases. -/
theorem virtualBase_slots (h : m.Readable)
    (hstored : ∀ commit ∈ first :: second :: rest, Stored m.commits commit) :
    ∃ bases base slots, bestCommonAncestors m.commits first second = .ok (some bases) ∧
      m.virtualBaseWithin m.commits.size bases = .ok (some base) ∧
      m.virtualBase (first :: second :: rest) = .ok (some slots) ∧
      ∀ key, slots.slot key = (rest.map fun commit => (m.slotsOf commit)[key]?).foldl combineSlot
        (selectValue (some (base.slot key)) (m.slotsOf first)[key]? (m.slotsOf second)[key]?) := by
  obtain ⟨bases, hbases, hinner, hless⟩ := bases_below h (hstored first (.head _))
    (hstored second (.tail _ (.head _)))
  obtain ⟨base, hbase⟩ := within_ends h m.commits.size hinner fun a b others heq =>
    (Nat.le_of_lt (hless a b others heq)).trans (m.depth_le first)
  obtain ⟨slots, hslots, hslot⟩ := within_ok h hstored hbases hbase
  exact ⟨bases, base, slots, hbases, hbase, hslots, hslot⟩

theorem virtualBase_one (h : m.Readable) (hstored : Stored m.commits first) :
    m.virtualBase [first] = .ok (some (fromLogicalSlots (m.slotsOf first))) := by
  unfold virtualBase virtualBaseWithin
  rw [h.load hstored]
  rfl

/-- A slot of a commit. -/
def slotOf (m : MergeSource) (key : Text) (commit : HashId) : Option Value :=
  (m.slotsOf commit)[key]?

/-- **A known slot is the slot of a base, and of all but one.** -/
theorem known_slot (h : m.Readable) (hne : bases ≠ [])
    (hstored : ∀ commit ∈ bases, Stored m.commits commit)
    (hslots : m.virtualBase bases = .ok (some slots)) (hknown : slots.slot key = .known value) :
    (∃ commit ∈ bases, m.slotOf key commit = value) ∧
      bases.countP (fun commit => !sameOptionalValue value (m.slotOf key commit)) ≤ 1 := by
  match bases, hne with
  | [first], _ =>
    rw [virtualBase_one h (hstored first List.mem_cons_self)] at hslots
    cases hslots
    rw [slot_fromLogicalSlots] at hknown
    cases hknown
    exact ⟨⟨first, .head _, rfl⟩, List.countP_le_length⟩
  | first :: second :: rest, _ =>
    obtain ⟨_, base, slots', _, _, hslots', hslot⟩ := virtualBase_slots h hstored
    rw [hslots'] at hslots
    cases hslots
    rw [hslot, foldl_eq_known] at hknown
    obtain ⟨hselect, hrest⟩ := hknown
    have hnone :
        rest.countP (fun commit => !sameOptionalValue value (m.slotOf key commit)) = 0 := by
      rw [List.countP_eq_zero]
      intro commit hcommit
      have hsame := hrest _ (List.mem_map_of_mem hcommit)
      rw [Bool.not_eq_true', Bool.not_eq_false]
      exact hsame
    rw [List.countP_cons, List.countP_cons, hnone]
    rcases select_known hselect with heq | heq
    · have hself : sameOptionalValue value (m.slotOf key first) = true := heq ▸ same_refl value
      refine ⟨⟨first, .head _, heq.symm⟩, ?_⟩
      rw [hself]
      cases sameOptionalValue value (m.slotOf key second) <;> decide
    · have hself : sameOptionalValue value (m.slotOf key second) = true := heq ▸ same_refl value
      refine ⟨⟨second, .tail _ (.head _), heq.symm⟩, ?_⟩
      rw [hself]
      cases sameOptionalValue value (m.slotOf key first) <;> decide

/-- **A slot on which all bases agree is known with the agreed value.** -/
theorem agreed_slot (h : m.Readable) (hstored : ∀ commit ∈ first :: rest, Stored m.commits commit)
    (hslots : m.virtualBase (first :: rest) = .ok (some slots)) (hagree : ∀ commit ∈ rest,
      sameOptionalValue (m.slotOf key first) (m.slotOf key commit) = true) :
    slots.slot key = .known (m.slotOf key first) := by
  match rest with
  | [] =>
    rw [virtualBase_one h (hstored first List.mem_cons_self)] at hslots
    cases hslots
    exact slot_fromLogicalSlots _ _
  | second :: rest =>
    obtain ⟨_, base, slots', _, _, hslots', hslot⟩ := virtualBase_slots h hstored
    rw [hslots'] at hslots
    cases hslots
    rw [hslot, foldl_eq_known]
    refine ⟨select_same (hagree second (.head _)), fun right hright => ?_⟩
    obtain ⟨commit, hcommit, heq⟩ := List.mem_map.mp hright
    rw [← heq]
    exact hagree commit (.tail _ hcommit)

/-! ## 7. The order of the bases -/

theorem bases_swap (h : Acyclic m.commits) (hfirst : Stored m.commits first)
    (hsecond : Stored m.commits second) :
    bestCommonAncestors m.commits first second = bestCommonAncestors m.commits second first := by
  obtain ⟨bases, hbases, hascending, hbest⟩ := walk_best h hfirst hsecond
  obtain ⟨bases', hbases', hascending', hbest'⟩ := walk_best h hsecond hfirst
  rw [hbases, hbases']
  refine congrArg (fun bases => Except.ok (some bases)) (ascending_eq hascending hascending' ?_)
  intro commit
  rw [hbest, hbest']
  unfold Best Common
  simp only [and_comm]

/-- **Lists with the same first two bases give the same states.** -/
theorem same_front (h : m.Readable) {first' second' : HashId} {rest' : List HashId}
    (hstored : ∀ commit ∈ first :: second :: rest, Stored m.commits commit)
    (hfront : [first, second].Perm [first', second']) (hrest : rest.Perm rest')
    (hslots : m.virtualBase (first :: second :: rest) = .ok (some slots))
    (hslots' : m.virtualBase (first' :: second' :: rest') = .ok (some slots')) (key : Text) :
    SameState (slots.slot key) (slots'.slot key) := by
  have hstored' : ∀ commit ∈ first' :: second' :: rest', Stored m.commits commit := by
    intro commit hcommit
    exact hstored commit ((hfront.append hrest).mem_iff.mpr hcommit)
  obtain ⟨bases, base, found, hbases, hbase, hfound, hslot⟩ := virtualBase_slots h hstored
  obtain ⟨bases', base', found', hbases', hbase', hfound', hslot'⟩ := virtualBase_slots h hstored'
  rw [hfound] at hslots
  rw [hfound'] at hslots'
  cases hslots
  cases hslots'
  rw [hslot, hslot']
  refine foldl_same (hrest.map _) ?_
  rcases List.pair_perm.mp hfront with heq | heq
  · cases heq
    rw [hbases] at hbases'
    cases hbases'
    rw [hbase] at hbase'
    cases hbase'
    exact sameState_refl _
  · cases heq
    rw [bases_swap h.graph (hstored first List.mem_cons_self)
      (hstored second (.tail _ (.head _))), hbases'] at hbases
    cases hbases
    rw [hbase] at hbase'
    cases hbase'
    exact select_swap _ _ _

/-- **No two orders know different values.** -/
theorem known_agrees (h : m.Readable) {bases' : List HashId} (hperm : bases.Perm bases')
    (hlength : 3 ≤ bases.length) (hstored : ∀ commit ∈ bases, Stored m.commits commit)
    (hslots : m.virtualBase bases = .ok (some slots))
    (hslots' : m.virtualBase bases' = .ok (some slots')) {value' : Option Value}
    (hknown : slots.slot key = .known value) (hknown' : slots'.slot key = .known value') :
    sameOptionalValue value value' = true := by
  have hne : bases ≠ [] := fun hnil => by
    rw [hnil] at hlength
    exact absurd hlength (by decide)
  have hne' : bases' ≠ [] := fun hnil => hne (List.perm_nil.mp (hnil ▸ hperm))
  have hfew := (known_slot h hne hstored hslots hknown).2
  have hfew' := (known_slot h hne' (fun commit hcommit => hstored commit (hperm.mem_iff.mpr hcommit))
    hslots' hknown').2
  rw [← hperm.countP_eq] at hfew'
  by_contra hdiffer
  have hall := length_le_countP_add (p := fun commit => !sameOptionalValue value (m.slotOf key commit))
    (q := fun commit => !sameOptionalValue value' (m.slotOf key commit)) (l := bases) fun commit => by
      by_contra hneither
      simp only [Bool.not_eq_true', not_or, Bool.not_eq_false] at hneither
      exact hdiffer (same_trans hneither.1 (same_symm hneither.2))
  omega

theorem order_states (h : m.Readable) {bases' : List HashId} (hperm : bases.Perm bases')
    (hstored : ∀ commit ∈ bases, Stored m.commits commit)
    (hslots : m.virtualBase bases = .ok (some slots))
    (hslots' : m.virtualBase bases' = .ok (some slots'))
    (hfront : (bases.take 2).Perm (bases'.take 2)) (key : Text) :
    SameState (slots.slot key) (slots'.slot key) := by
  match bases, bases', hperm with
  | [], bases', hperm =>
    rw [List.nil_perm.mp hperm] at hslots'
    rw [hslots] at hslots'
    cases hslots'
    exact sameState_refl _
  | [first], bases', hperm =>
    rw [List.singleton_perm.mp hperm] at hslots
    rw [hslots] at hslots'
    cases hslots'
    exact sameState_refl _
  | first :: second :: rest, first' :: second' :: rest', hperm =>
    have hmoved : ([first, second] ++ rest').Perm ([first', second'] ++ rest') :=
      hfront.append_right rest'
    have hrest : rest.Perm rest' :=
      (List.perm_append_left_iff [first, second]).mp (hperm.trans hmoved.symm)
    exact same_front h hstored hfront hrest hslots hslots' key
  | first :: second :: rest, [], hperm => exact absurd hperm.length_eq (by simp)
  | first :: second :: rest, [_], hperm => exact absurd hperm.length_eq (by simp)

/-- **Above a common ancestor there is a base.** -/
theorem exists_base {commit : HashId} (h : Acyclic m.commits) (hfirst : Stored m.commits first)
    (hcommon : Common m.commits first second commit) :
    ∃ base, Best m.commits first second base ∧ InHistory m.commits base commit := by
  by_cases hbest : Best m.commits first second commit
  · exact ⟨commit, hbest, .refl⟩
  · obtain ⟨other, hother, hne, hpath⟩ : ∃ other, Common m.commits first second other ∧
        other ≠ commit ∧ InHistory m.commits other commit := by
      by_contra hnone
      exact hbest ⟨hcommon, fun other hother hne hpath => hnone ⟨other, hother, hne, hpath⟩⟩
    have hlt := depth_lt h (InHistory.stored h hfirst hother.1) hpath hne.symm
    have hle := m.depth_le other
    obtain ⟨base, hbase, habove⟩ := exists_base h hfirst hother
    exact ⟨base, hbase, habove.trans hpath⟩
termination_by m.commits.size - m.depth commit

theorem bases_of_descendant (h : Acyclic m.commits) (hfirst : Stored m.commits first)
    (hsecond : Stored m.commits second) (hpath : InHistory m.commits second first) :
    bestCommonAncestors m.commits first second = .ok (some [first]) := by
  obtain ⟨bases, hbases, hascending, hbest⟩ := walk_best h hfirst hsecond
  have honly : ∀ {base}, Best m.commits first second base → base = first := by
    intro base hbase
    by_contra hne
    exact hbase.2 first ⟨.refl, hpath⟩ (Ne.symm hne) hbase.1.1
  obtain ⟨base, hbase, _⟩ := exists_base h hfirst ⟨.refl, hpath⟩
  rw [hbases, ascending_eq hascending (List.pairwise_singleton _ first) fun commit => ?_]
  rw [List.mem_singleton, hbest]
  refine ⟨honly, fun heq => ?_⟩
  rw [heq]
  exact honly hbase ▸ hbase

/-- **The bases of two commits** are the same from both sides; their histories are together the
    common history, none lies in that of another one, and one commit is the only base exactly where
    the other one descends from it. -/
theorem bases_cover (h : Acyclic m.commits) (hfirst : Stored m.commits first)
    (hsecond : Stored m.commits second) : ∃ bases,
      bestCommonAncestors m.commits first second = .ok (some bases) ∧
      bestCommonAncestors m.commits second first = .ok (some bases) ∧
      (∀ commit, Common m.commits first second commit ↔
        ∃ base ∈ bases, InHistory m.commits base commit) ∧
      (∀ a ∈ bases, ∀ b ∈ bases, InHistory m.commits a b → a = b) ∧
      (bases = [first] ↔ InHistory m.commits second first) := by
  obtain ⟨bases, hbases, _, hbest⟩ := walk_best h hfirst hsecond
  refine ⟨bases, hbases, bases_swap h hfirst hsecond ▸ hbases, fun commit => ?_, ?_, ?_, ?_⟩
  · refine ⟨fun hcommon => ?_, fun hexists => ?_⟩
    · obtain ⟨base, hbase, hpath⟩ := exists_base h hfirst hcommon
      exact ⟨base, (hbest base).mpr hbase, hpath⟩
    · obtain ⟨base, hmem, hpath⟩ := hexists
      have hcommon := ((hbest base).mp hmem).1
      exact ⟨hcommon.1.trans hpath, hcommon.2.trans hpath⟩
  · intro a ha b hb hpath
    by_contra hne
    exact ((hbest b).mp hb).2 a ((hbest a).mp ha).1 hne hpath
  · intro heq
    exact ((hbest first).mp (heq ▸ List.mem_singleton_self first)).1.2
  · intro hpath
    rw [bases_of_descendant h hfirst hsecond hpath] at hbases
    cases hbases
    rfl

theorem virtualMerge_ok (h : m.Readable) (hfirst : Stored m.commits first)
    (hsecond : Stored m.commits second) : ∃ bases base,
      bestCommonAncestors m.commits first second = .ok (some bases) ∧
      m.virtualBase bases = .ok (some base) ∧
      m.virtualMergeCommits m.virtualBase first second =
        .ok (some (mergeValues base (m.slotsOf first) (m.slotsOf second))) := by
  obtain ⟨bases, hbases, hstored, _⟩ := bases_below h hfirst hsecond
  obtain ⟨base, hbase⟩ := virtualBase_ends h hstored
  refine ⟨bases, base, hbases, hbase, ?_⟩
  unfold virtualMergeCommits
  rw [hbases, h.load hfirst, h.load hsecond]
  simp only [ofStorage, ok_bind, hbase]
  rfl

end MergeSource

/-! ## 9. Two bases and three -/

/-- A connection to a database without names. -/
def emptyConnection : Connection where
  labels := .empty
  relationshipTypes := .empty
  propertyKeys := .empty
  zones := ⟨fun _ => false, fun _ _ _ => none⟩
  wrapLongitude := id
  shapes := ⟨fun _ => ⟨0⟩, fun _ _ => .error ⟨""⟩, fun _ => .null⟩

/-- A fork: both children have the node that their parent has not. -/
def forkSource : MergeSource where
  commits := fork
  connection := emptyConnection
  loadState commit := .ok { nodes :=
    if commit = [1] then ∅ else (∅ : ExtTreeMap NodeId Unit).insert 1 () }

theorem fork_loads (commit : HashId) : forkSource.loadSlots commit =
    .ok (if commit = [1] then ∅ else (∅ : VersionSlots).insert (nodeSlot 1) (.boolean true)) := by
  unfold MergeSource.loadSlots forkSource
  by_cases hroot : commit = [1]
  · simp only [if_pos hroot]
    rfl
  · simp only [if_neg hroot]
    rfl

theorem fork_readable : forkSource.Readable := ⟨fork_acyclic, fun commit _ => ⟨_, fork_loads commit⟩⟩

theorem fork_slot {commit : HashId} (hchild : commit ≠ [1]) :
    forkSource.slotOf (nodeSlot 1) commit = some (.boolean true) := by
  unfold MergeSource.slotOf MergeSource.slotsOf
  rw [fork_loads, if_neg hchild]
  exact ExtTreeMap.getElem?_insert_self

theorem fork_stored : Stored forkSource.commits [1] ∧ Stored forkSource.commits [2] :=
  ⟨⟨_, rfl⟩, ⟨_, rfl⟩⟩

theorem fork_path : InHistory forkSource.commits [2] [1] :=
  .single ⟨plainCommit (some [1]) none, rfl, List.mem_singleton.mpr rfl⟩

/-- A commit and its child have the commit as their base. -/
theorem bases_child : bestCommonAncestors forkSource.commits [1] [2] = .ok (some [[1]]) := by
  obtain ⟨bases, hbases, _, _, _, honly⟩ :=
    MergeSource.bases_cover fork_readable.graph fork_stored.1 fork_stored.2
  rw [hbases, honly.mpr fork_path]

/-- The commit with this byte in its hash. -/
def commitId (byte : UInt8) : HashId := List.replicate 32 byte

/-- Three children of one commit, merged into two heads that have all three as best common
    ancestors. -/
def threeBases : Commits :=
  ExtTreeMap.ofList [(commitId 1, plainCommit none none),
    (commitId 2, plainCommit (some (commitId 1)) none),
    (commitId 3, plainCommit (some (commitId 1)) none),
    (commitId 4, plainCommit (some (commitId 1)) none),
    (commitId 5, plainCommit (some (commitId 2)) (some (commitId 3))),
    (commitId 6, plainCommit (some (commitId 5)) (some (commitId 4))),
    (commitId 7, plainCommit (some (commitId 3)) (some (commitId 2))),
    (commitId 8, plainCommit (some (commitId 7)) (some (commitId 4)))]

/-- A node is created in the second and in the third of the three. -/
def threeSource : MergeSource where
  commits := threeBases
  connection := emptyConnection
  loadState commit := .ok { nodes := if commit = commitId 3 ∨ commit = commitId 4 then
    (∅ : ExtTreeMap NodeId Unit).insert 1 () else ∅ }

/-- Both are bases, and they tell different things of the slot. -/
def differAt (slot : Text) : QueryResult (Option VirtualSlots) → QueryResult (Option VirtualSlots) →
    Bool
  | .ok (some slots), .ok (some slots') => decide (¬ SameState (slots.slot slot) (slots'.slot slot))
  | _, _ => false

end Lithograph.Version
