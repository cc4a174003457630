/-
  File:      Lithograph/Version/LogTraversal.lean
  Subject:   The history listing (`query/version/mod.rs`, `storage/version/history.rs`).

  The traversal of a page is rebuilt from the cursor of the page before. The number of children is
  asked of the database when the first child of a commit is listed. The hash function is a
  parameter.

  * `decodeLogCursor_encode`: a cursor decodes to the traversal it was made from.
-/
import Lithograph.Cypher.ReadBack
import Lithograph.Version.Store

namespace Lithograph.Version

open Std Library Storage Query Cypher

/-! ## 1. The rows -/

/-- `Reverse<i64>`: the later time comes first. -/
structure Reverse where
  value : Int
  deriving DecidableEq

instance : Ord Reverse := ⟨fun a b => compare b.value a.value⟩

instance : TransOrd Reverse where
  eq_swap {a b} := by
    show compare b.value a.value = (compare a.value b.value).swap
    exact OrientedCmp.eq_swap
  isLE_trans {a b c} h h' := by
    show (compare c.value a.value).isLE
    exact TransCmp.isLE_trans h' h

instance : LawfulEqOrd Reverse where
  eq_of_compare {a b} h := by
    have hv : b.value = a.value := Std.compare_eq_iff_eq.mp h
    cases a
    cases b
    exact congrArg Reverse.mk hv.symm

/-- A commit in the order of the listing. -/
abbrev ReadyKey := Reverse × HashId

structure LogTraversal where
  start : HashId
  ready : ExtTreeSet ReadyKey
  pendingChildren : ExtTreeMap HashId Nat

/-- `commit_value`, as a text. -/
def commitText (commit : HashId) : Text := "commit/".toList ++ (HashId.toHex commit).toList

/-- `commit_record_row`. -/
structure CommitRow where
  commit : Text
  parents : List Text
  author : Option Text
  message : Option Text
  committedAt : Int
  deriving DecidableEq

structure LogRow extends CommitRow where
  cursor : Option Text
  deriving DecidableEq

def commitRecordRow (id : HashId) (record : CommitRecord) : CommitRow :=
  { commit := commitText id
    parents := record.parents.map commitText
    author := record.metadata.author
    message := record.metadata.message
    committedAt := record.metadata.committedAt }

def mapVersionError : StorageError → QueryError
  | .notFound message => ⟨.versionNotFound, "Version was not found: " ++ message⟩
  | error => QueryError.ofStorage error

/-- `load_commit(..).map_err(map_version_error)`. -/
def loadVersion (commits : Commits) (commit : HashId) : QueryResult CommitRecord :=
  (loadCommit commits commit).mapError mapVersionError

/-! ## 2. The traversal -/

/-- The rows the recursive part of the query adds for a commit; none where it has no row. -/
def recursiveParents (commits : Commits) (commit : HashId) : StorageResult (List HashId) :=
  .ok ((commits[commit]?.map CommitRecord.parents).getD [])

/-- `WITH RECURSIVE reachable(id)`. -/
def reachableIds (commits : Commits) (start : HashId) : List HashId :=
  match closure (recursiveParents commits) (walkFuel commits [start]) [] [start] with
  | .ok (some ids) => ids
  | _ => []

/-- The rows the query counts: a child stands there once, also when both its parents are the
    commit. -/
def reachableChildren (commits : Commits) (start parent : HashId) : List HashId :=
  (commits.toList.filter fun (child : HashId × CommitRecord) =>
    child.1 ∈ reachableIds commits start ∧
      (child.2.parent1 = some parent ∨ child.2.parent2 = some parent)).map Prod.fst

def reachableChildCount (commits : Commits) (start parent : HashId) : Nat :=
  (reachableChildren commits start parent).length

def storageFault (message : String) : QueryError := ⟨.storage, message⟩

/-- The count a parent has: what it kept, or all its children when it meets the first. -/
def knownChildren (commits : Commits) (traversal : LogTraversal) (parent : HashId) :
    QueryResult Nat :=
  match traversal.pendingChildren[parent]? with
  | some count => .ok count
  | none => do
    let count := reachableChildCount commits traversal.start parent
    refuseWhen (count = 0)
      (storageFault "Commit DAG traversal found a parent with no reachable child")
    .ok count

def advanceLogParent (commits : Commits) (traversal : LogTraversal) (parent : HashId) :
    QueryResult LogTraversal := do
  refuseWhen (traversal.ready.toList.any fun key => key.2 = parent)
    (storageFault "Commit DAG traversal observed a parent that was already ready")
  let known ← knownChildren commits traversal parent
  refuseWhen (known = 0) (storageFault "Commit DAG traversal child count underflowed")
  let remaining := known - 1
  if remaining = 0 then do
    let record ← loadVersion commits parent
    .ok { traversal with
          pendingChildren := traversal.pendingChildren.erase parent
          ready := traversal.ready.insert (⟨record.metadata.committedAt⟩, parent) }
  else
    .ok { traversal with pendingChildren := traversal.pendingChildren.insert parent remaining }

/-- The parents of a commit as a `BTreeSet`, in its order. -/
def parentSet (record : CommitRecord) : List HashId :=
  (record.parents.foldl (fun set parent => set.insert parent) (∅ : ExtTreeSet HashId)).toList

/-- `next_log_commit`: the commit, with the traversal after it. -/
def nextLogCommit (commits : Commits) (traversal : LogTraversal) :
    QueryResult (Option ((HashId × CommitRecord) × LogTraversal)) :=
  match traversal.ready.min? with
  | none =>
    if traversal.pendingChildren.isEmpty then .ok none
    else .error (storageFault "Commit DAG traversal has pending parents but no ready Commit")
  | some key => do
    let record ← loadVersion commits key.2
    let next ← (parentSet record).foldlM (advanceLogParent commits)
      { traversal with ready := traversal.ready.erase key }
    .ok (some ((key.2, record), next))

def newLogTraversal (commits : Commits) (start : HashId) : QueryResult LogTraversal := do
  let record ← loadVersion commits start
  .ok { start
        ready := (∅ : ExtTreeSet ReadyKey).insert (⟨record.metadata.committedAt⟩, start)
        pendingChildren := ∅ }

/-! ## 3. The cursor -/

def join (sep : Char) (parts : List Text) : Text := [sep].intercalate parts

def hexText (commit : HashId) : Text := (HashId.toHex commit).toList

def encodeReady (ready : ExtTreeSet ReadyKey) : Text :=
  join ',' (ready.toList.map fun key => hexText key.2)

/-- A waiting commit with the number of its children that are left. -/
def pendingText (entry : HashId × Nat) : Text := join ',' [hexText entry.1, decimal entry.2]

def encodePending (pending : ExtTreeMap HashId Nat) : Text :=
  join ';' (pending.toList.map pendingText)

/-- The first sixteen digits of the checksum. -/
def logChecksum (blake3 : Bytes → Bytes) (payload : Text) : Text :=
  (hexText (blake3 (Text.utf8 payload))).take 16

def logPayload (traversal : LogTraversal) : Text :=
  join ':' ["log2".toList, hexText traversal.start, encodeReady traversal.ready,
    encodePending traversal.pendingChildren]

def encodeLogCursor (blake3 : Bytes → Bytes) (traversal : LogTraversal) : Text :=
  logPayload traversal ++ ':' :: logChecksum blake3 (logPayload traversal)

def invalidLogCursor : QueryError := QueryError.invalidArgument "invalid log cursor"

/-- `is_ascii_hexdigit`. -/
def isHexDigit (c : Char) : Bool := (hex c).isOk

def HashId.fromHex (text : Text) : StorageResult HashId :=
  if text.length ≠ 64 ∨ ¬ text.all isHexDigit then
    .error (.notFound ("Commit " ++ String.ofList text))
  else
    (hexPairs text).mapError fun _ => .notFound ("Commit " ++ String.ofList text)

/-- `from_hex(..).map_err(..)`. -/
def cursorCommit (text : Text) : QueryResult HashId :=
  (HashId.fromHex text).mapError fun _ => invalidLogCursor

def logCursorParts (blake3 : Bytes → Bytes) (cursor : Text) : QueryResult (Text × Text × Text) :=
  match (cursor.splitOn ':').take 6 with
  | [version, start, ready, pending, checksum] => do
    refuseWhen (version ≠ "log2".toList) invalidLogCursor
    match rsplitOnce ':' cursor with
    | none => .error invalidLogCursor
    | some (payload, _) => do
      refuseWhen (checksum ≠ logChecksum blake3 payload) invalidLogCursor
      .ok (start, ready, pending)
  | _ => .error invalidLogCursor

/-- One pass of `decode_log_ready`. -/
def decodeReadyEntry (commits : Commits) (ready : ExtTreeSet ReadyKey) (encoded : Text) :
    QueryResult (ExtTreeSet ReadyKey) := do
  let commit ← cursorCommit encoded
  let record ← loadVersion commits commit
  refuseWhen (ready.contains (⟨record.metadata.committedAt⟩, commit)) invalidLogCursor
  .ok (ready.insert (⟨record.metadata.committedAt⟩, commit))

def decodeLogReady (commits : Commits) (encoded : Text) : QueryResult (ExtTreeSet ReadyKey) :=
  ((encoded.splitOn ',').filter (· ≠ [])).foldlM (decodeReadyEntry commits) ∅

/-- A numeral may start with a plus. -/
def stripPlus : Text → Text
  | '+' :: digits => digits
  | digits => digits

/-- `parse::<usize>`. -/
def parseUsize (text : Text) : Option Nat :=
  let digits := stripPlus text
  if digits ≠ [] ∧ digits.all isDigit ∧ number digits < 2 ^ 64 then some (number digits) else none

/-- One pass of `decode_log_pending`. -/
def decodePendingEntry (commits : Commits) (ready : ExtTreeSet ReadyKey)
    (pending : ExtTreeMap HashId Nat) (encoded : Text) : QueryResult (ExtTreeMap HashId Nat) :=
  match encoded.splitOn ',' with
  | [commit, count] => do
    let commit ← cursorCommit commit
    match (parseUsize count).filter (0 < ·) with
    | none => .error invalidLogCursor
    | some count => do
      refuseWhen ((ready.toList.any fun key => key.2 = commit) || pending.contains commit)
        invalidLogCursor
      let _ ← loadVersion commits commit
      .ok (pending.insert commit count)
  | _ => .error invalidLogCursor

def decodeLogPending (commits : Commits) (encoded : Text) (ready : ExtTreeSet ReadyKey) :
    QueryResult (ExtTreeMap HashId Nat) :=
  ((encoded.splitOn ';').filter (· ≠ [])).foldlM (decodePendingEntry commits ready) ∅

def decodeLogCursor (blake3 : Bytes → Bytes) (commits : Commits) (cursor : Text) :
    QueryResult LogTraversal := do
  let (start, ready, pending) ← logCursorParts blake3 cursor
  let start ← cursorCommit start
  let _ ← loadVersion commits start
  let ready ← decodeLogReady commits ready
  let pendingChildren ← decodeLogPending commits pending ready
  refuseWhen (ready.isEmpty && !pendingChildren.isEmpty) invalidLogCursor
  .ok { start, ready, pendingChildren }

/-! ## 4. The procedure -/

def collectLogRows (blake3 : Bytes → Bytes) (commits : Commits) :
    Nat → LogTraversal → QueryResult (List LogRow)
  | 0, _ => .ok []
  | limit + 1, traversal => do
    match ← nextLogCommit commits traversal with
    | none => .ok []
    | some ((id, record), traversal) => do
      let cursor := if traversal.ready.isEmpty && traversal.pendingChildren.isEmpty then none
        else some (encodeLogCursor blake3 traversal)
      let rows ← collectLogRows blake3 commits limit traversal
      .ok ({ commitRecordRow id record with cursor } :: rows)

def stringValue (value : Value) (role : String) : QueryResult Text :=
  match value with
  | .string text =>
    if text ≠ [] then .ok text
    else .error (QueryError.invalidArgument (role ++ " must be a non-empty String"))
  | _ => .error (QueryError.invalidArgument (role ++ " must be a non-empty String"))

def logLimit (args : List Value) : QueryResult Nat :=
  match (args[1]? : Option Value) with
  | none => .ok 100
  | some (.integer value) =>
    if 0 < value then
      if value < 2 ^ 64 then .ok value.toNat
      else .error (QueryError.invalidArgument "log limit is too large")
    else .error (QueryError.invalidArgument "log limit must be a positive Integer")
  | some _ => .error (QueryError.invalidArgument "log limit must be a positive Integer")

/-- What the procedure takes from around it (`active_head`, `resolve_descriptor`), and the hash. -/
structure LogContext where
  blake3 : Bytes → Bytes
  activeHead : QueryResult HashId
  resolveDescriptor : Value → QueryResult HashId

/-- The start of a first page. -/
def LogContext.start (x : LogContext) (args : List Value) : QueryResult HashId :=
  match args[0]? with
  | none => x.activeHead
  | some value => x.resolveDescriptor value

def LogContext.logRequest (x : LogContext) (commits : Commits) (args : List Value) :
    QueryResult (LogTraversal × Nat) := do
  let traversal ← match args[2]? with
    | some cursor => do
      let cursor ← stringValue cursor "cursor"
      decodeLogCursor x.blake3 commits cursor
    | none => do
      let start ← x.start args
      newLogTraversal commits start
  let limit ← logLimit args
  .ok (traversal, limit)

def LogContext.log (x : LogContext) (commits : Commits) (args : List Value) :
    QueryResult (List LogRow) := do
  let (traversal, limit) ← x.logRequest commits args
  collectLogRows x.blake3 commits limit traversal

/-! ## 5. What the recursive query finds -/

/-- The commit has the parent. -/
def Child (commits : Commits) (child parent : HashId) : Prop :=
  ∃ row, commits[child]? = some row ∧ parent ∈ row.parents

/-- A commit of the history of another. -/
def InHistory (commits : Commits) (start commit : HashId) : Prop :=
  Relation.ReflTransGen (Child commits) start commit

variable {parent commit : HashId} {commits : Commits} {t : LogTraversal}

theorem mem_parents {row : CommitRecord} :
    parent ∈ row.parents ↔ row.parent1 = some parent ∨ row.parent2 = some parent := by
  unfold CommitRecord.parents
  simp only [List.mem_filterMap, List.mem_cons, List.not_mem_nil, or_false, id]
  constructor
  · rintro ⟨_, rfl | rfl, h⟩
    · exact Or.inl h
    · exact Or.inr h
  · rintro (h | h)
    · exact ⟨_, Or.inl rfl, h⟩
    · exact ⟨_, Or.inr rfl, h⟩

theorem follows_recursiveParents {child : HashId} :
    Follows (recursiveParents commits) child parent ↔ Child commits child parent := by
  unfold Follows recursiveParents Child
  cases hrow : commits[child]? with
  | none =>
    constructor
    · rintro ⟨_, h, hmem⟩
      cases h
      cases hmem
    · rintro ⟨_, h, _⟩
      cases h
  | some row =>
    constructor
    · rintro ⟨_, h, hmem⟩
      cases h
      exact ⟨row, rfl, hmem⟩
    · rintro ⟨_, h, hmem⟩
      cases h
      exact ⟨_, rfl, hmem⟩

/-- **The recursive query finds the history of its start.** -/
theorem mem_reachableIds {start id : HashId} :
    id ∈ reachableIds commits start ↔ InHistory commits start id := by
  have hsucc : ∀ (commit : HashId) (next : List HashId),
      recursiveParents commits commit = .ok next →
        next = [] ∨ commit ∈ commits.keys ∧ next.length ≤ 2 := by
    intro commit next h
    unfold recursiveParents at h
    cases hrow : commits[commit]? with
    | none =>
      rw [hrow] at h
      cases h
      exact Or.inl rfl
    | some row =>
      rw [hrow] at h
      cases h
      refine Or.inr ⟨?_, parents_length row⟩
      rw [ExtTreeMap.mem_keys]
      exact ExtTreeMap.mem_iff_isSome_getElem?.mpr (Option.isSome_of_eq_some hrow)
  have hdefined : ∃ result,
      closure (recursiveParents commits) (walkFuel commits [start]) [] [start] = .ok result :=
    closure_defined (P := fun _ => True) (fun a _ => ⟨_, rfl, fun _ _ => trivial⟩) fun _ _ => trivial
  obtain ⟨result, hresult⟩ := hdefined
  unfold reachableIds
  cases result with
  | none =>
    refine absurd hresult (closure_ends hsucc ?_)
    have hcount : ∀ p : HashId → Bool, commits.keys.countP p ≤ commits.size := fun p => by
      rw [← ExtTreeMap.length_keys]
      exact List.countP_le_length
    unfold closureWork walkFuel
    exact Nat.lt_succ_of_le (Nat.add_le_add_left (Nat.mul_le_mul_left 2 (hcount _)) _)
  | some ids =>
    rw [hresult]
    rw [mem_closure_iff hresult]
    have hstep : Follows (recursiveParents commits) = Child commits := by
      funext a b
      exact propext follows_recursiveParents
    rw [hstep]
    unfold InHistory
    simp

theorem mem_reachableChildren {start child : HashId} :
    child ∈ reachableChildren commits start parent ↔
      InHistory commits start child ∧ Child commits child parent := by
  unfold reachableChildren
  rw [List.mem_map]
  simp only [List.mem_filter, decide_eq_true_eq, mem_reachableIds, Prod.exists, exists_and_right,
    exists_eq_right]
  constructor
  · rintro ⟨row, hrow, hin, hparent⟩
    exact ⟨hin, row, lookup_of_mem hrow, mem_parents.mpr hparent⟩
  · rintro ⟨hin, row, hrow, hparent⟩
    exact ⟨row, mem_of_lookup hrow, hin, mem_parents.mp hparent⟩

theorem nodup_reachableChildren (commits : Commits) (start parent : HashId) :
    (reachableChildren commits start parent).Nodup := by
  unfold reachableChildren
  rw [List.Nodup, List.pairwise_map]
  exact (toList_keys_ne commits).filter _

theorem reachableChildCount_le (commits : Commits) (start parent : HashId) :
    reachableChildCount commits start parent ≤ commits.size := by
  unfold reachableChildCount reachableChildren
  rw [List.length_map, ← ExtTreeMap.length_toList]
  exact List.length_filter_le _ _

/-! ## 6. A cursor decodes to its traversal -/

theorem hexText_eq (commit : HashId) : hexText commit = commit.flatMap hexByte := by
  unfold hexText HashId.toHex
  rw [String.toList_ofList]
  rfl

theorem isHexDigit_of_mem {c : Char} (h : c ∈ hexText commit) : isHexDigit c = true := by
  rw [hexText_eq] at h
  obtain ⟨byte, _, hc⟩ := List.mem_flatMap.mp h
  have hbyte := byte.toNat_lt
  unfold isHexDigit
  unfold hexByte at hc
  rcases List.mem_cons.mp hc with rfl | hc
  · rw [(hexDigit_spec (by omega)).1]
    rfl
  · rcases List.mem_singleton.mp hc with rfl
    rw [(hexDigit_spec (by omega)).1]
    rfl

theorem not_mem_hexText {sep : Char} (hsep : isHexDigit sep = false) (commit : HashId) :
    sep ∉ hexText commit := by
  intro h
  rw [isHexDigit_of_mem h] at hsep
  cases hsep

/-- **A hash comes back from its digits.** -/
theorem fromHex_hexText (h : commit.length = 32) :
    HashId.fromHex (hexText commit) = .ok commit := by
  have hlength : (hexText commit).length = 64 := by
    rw [hexText_eq, length_hexBytes, h]
  have hall : (hexText commit).all isHexDigit = true :=
    List.all_eq_true.mpr fun c hc => isHexDigit_of_mem hc
  unfold HashId.fromHex
  rw [if_neg (by simp [hlength, hall]), hexText_eq, hexPairs_hexBytes]
  rfl

theorem cursorCommit_hexText (h : commit.length = 32) :
    cursorCommit (hexText commit) = .ok commit := by
  unfold cursorCommit
  rw [fromHex_hexText h]
  rfl

theorem hexText_ne_nil (h : commit.length = 32) : hexText commit ≠ [] := by
  intro hnil
  have hlength : (hexText commit).length = 64 := by
    rw [hexText_eq, length_hexBytes, h]
  rw [hnil] at hlength
  cases hlength

theorem not_mem_join {sep c : Char} (hc : c ≠ sep) : ∀ {parts : List Text},
    (∀ part ∈ parts, c ∉ part) → c ∉ join sep parts
  | [], _ => by simp [join]
  | [part], h => by
    unfold join
    rw [List.intercalate_singleton]
    exact h part (.head _)
  | part :: next :: rest, h => by
    have ih := not_mem_join hc (fun p hp => h p (List.mem_cons_of_mem part hp))
    unfold join at ih ⊢
    rw [List.intercalate_cons_cons, List.mem_append, List.mem_append, List.mem_singleton]
    rintro ((hpart | hsep) | hrest)
    · exact h part (.head _) hpart
    · exact hc hsep
    · exact ih hrest

theorem split_join {sep : Char} {parts : List Text} (hne : ∀ part ∈ parts, part ≠ [])
    (hsep : ∀ part ∈ parts, sep ∉ part) :
    ((join sep parts).splitOn sep).filter (· ≠ []) = parts := by
  by_cases hnil : parts = []
  · subst hnil
    rfl
  · unfold join
    rw [List.splitOn_intercalate sep hsep hnil, List.filter_eq_self]
    intro part hpart
    simpa using hne part hpart

theorem stripPlus_of_not_mem {text : Text} (h : '+' ∉ text) : stripPlus text = text := by
  unfold stripPlus
  split
  · exact absurd (.head _) h
  · rfl

theorem parseUsize_decimal {n : Nat} (h : n < 2 ^ 64) : parseUsize (decimal n) = some n := by
  have hnumber : number (decimal n) = n := number_decimal (Nat.lt_trans h (by decide))
  have hplus : stripPlus (decimal n) = decimal n := stripPlus_of_not_mem (not_mem_decimal rfl)
  unfold parseUsize
  dsimp only
  rw [hplus, hnumber, if_pos ⟨decimal_ne_nil n, all_isDigit_decimal n, h⟩]

theorem pendingText_eq (entry : HashId × Nat) :
    pendingText entry = hexText entry.1 ++ ',' :: decimal entry.2 := by
  unfold pendingText join
  rw [List.intercalate_cons_cons, List.intercalate_singleton, List.append_assoc,
    List.singleton_append]

theorem pendingText_ne_nil (entry : HashId × Nat) : pendingText entry ≠ [] := by
  exact List.append_ne_nil_of_right_ne_nil _ (List.cons_ne_nil _ _)

theorem not_mem_pendingText {c : Char} (hhex : isHexDigit c = false) (hdigit : isDigit c = false)
    (hcomma : c ≠ ',') (entry : HashId × Nat) : c ∉ pendingText entry := by
  rw [pendingText_eq, List.mem_append, List.mem_cons]
  rintro (h | h | h)
  · exact not_mem_hexText hhex _ h
  · exact hcomma h
  · exact not_mem_decimal hdigit h

/-- A traversal a cursor can stand for: its commits are there, each at its time, and no commit is
    both open and waiting. -/
structure LogTraversal.Sound (commits : Commits) (t : LogTraversal) : Prop where
  start : Stored commits t.start
  ready : ∀ key ∈ t.ready, ∃ row, commits[key.2]? = some row ∧
    key.1.value = row.metadata.committedAt
  pending : ∀ (p : HashId) (n : Nat), t.pendingChildren[p]? = some n →
    Stored commits p ∧ 0 < n ∧ n < 2 ^ 64 ∧ ∀ key ∈ t.ready, key.2 ≠ p
  goesOn : t.ready = ∅ → t.pendingChildren = ∅

theorem loadVersion_ok {row : CommitRecord} :
    loadVersion commits commit = .ok row ↔ commits[commit]? = some row := by
  unfold loadVersion loadCommit
  cases commits[commit]? with
  | none => simp [Except.mapError]
  | some record => simp [Except.mapError]

section

variable {commits : Commits}
  (hwidth : ∀ (id : HashId) (row : CommitRecord), commits[id]? = some row → id.length = 32)
include hwidth

theorem decodeReady_fold : ∀ (keys : List ReadyKey) (ready : ExtTreeSet ReadyKey), keys.Nodup →
    (∀ key ∈ keys, key ∉ ready) →
    (∀ key ∈ keys, ∃ row, commits[key.2]? = some row ∧ key.1.value = row.metadata.committedAt) →
    ∃ ready', (keys.map fun key => hexText key.2).foldlM (decodeReadyEntry commits) ready =
        .ok ready' ∧ ∀ key, key ∈ ready' ↔ key ∈ ready ∨ key ∈ keys
  | [], ready, _, _, _ => ⟨ready, rfl, fun key => by simp⟩
  | key :: keys, ready, hnodup, hnew, hrows => by
    obtain ⟨row, hrow, htime⟩ := hrows key (.head _)
    obtain ⟨hkey, hrest⟩ := List.nodup_cons.mp hnodup
    have heq : ((⟨row.metadata.committedAt⟩, key.2) : ReadyKey) = key := by
      rw [← htime]
    have hpass : decodeReadyEntry commits ready (hexText key.2) = .ok (ready.insert key) := by
      unfold decodeReadyEntry
      have hfree : ready.contains key = false := by
        rw [← Bool.not_eq_true, ExtTreeSet.contains_iff_mem]
        exact hnew key (.head _)
      rw [cursorCommit_hexText (hwidth _ _ hrow), ok_bind, loadVersion_ok.mpr hrow, ok_bind, heq,
        hfree]
      rfl
    have hnew' : ∀ k ∈ keys, k ∉ ready.insert key := by
      intro k hk hmem
      rcases ExtTreeSet.mem_insert.mp hmem with he | hmem
      · rw [LawfulEqCmp.eq_of_compare he] at hkey
        exact hkey hk
      · exact hnew k (.tail _ hk) hmem
    obtain ⟨ready', hfold, hmem⟩ := decodeReady_fold keys (ready.insert key) hrest hnew'
      fun k hk => hrows k (.tail _ hk)
    refine ⟨ready', ?_, fun k => ?_⟩
    · rw [List.map_cons, List.foldlM_cons, hpass, ok_bind, hfold]
    · rw [hmem, ExtTreeSet.mem_insert, List.mem_cons, Std.compare_eq_iff_eq]
      constructor
      · rintro ((rfl | h) | h)
        · exact Or.inr (Or.inl rfl)
        · exact Or.inl h
        · exact Or.inr (Or.inr h)
      · rintro (h | rfl | h)
        · exact Or.inl (Or.inr h)
        · exact Or.inl (Or.inl rfl)
        · exact Or.inr h

theorem decodePendingEntry_ok {ready : ExtTreeSet ReadyKey} {pending : ExtTreeMap HashId Nat}
    {p : HashId} {n : Nat} (hnew : pending[p]? = none) (hstored : Stored commits p) (hpos : 0 < n)
    (hlt : n < 2 ^ 64) (hready : ∀ key ∈ ready, (key : ReadyKey).2 ≠ p) :
    decodePendingEntry commits ready pending (pendingText (p, n)) = .ok (pending.insert p n) := by
  obtain ⟨row, hrow⟩ := hstored
  have hsep : ∀ part ∈ [hexText p, decimal n], ',' ∉ part := by
    simp only [List.mem_cons, List.not_mem_nil, or_false, forall_eq_or_imp, forall_eq]
    exact ⟨not_mem_hexText (by decide) p, not_mem_decimal (by decide)⟩
  have hfields : (pendingText (p, n)).splitOn ',' = [hexText p, decimal n] :=
    List.splitOn_intercalate ',' hsep (List.cons_ne_nil _ _)
  have hcount : (parseUsize (decimal n)).filter (0 < ·) = some n := by
    rw [parseUsize_decimal hlt, Option.filter_some, if_pos (by simpa using hpos)]
  have hfree : ((ready.toList.any fun key => key.2 = p) || pending.contains p) = false := by
    rw [Bool.or_eq_false_iff, List.any_eq_false]
    refine ⟨fun key hk => ?_, ?_⟩
    · simpa using hready key (ExtTreeSet.mem_toList.mp hk)
    · rw [← ExtTreeMap.isSome_getElem?_eq_contains, hnew]
      rfl
  unfold decodePendingEntry
  rw [hfields]
  dsimp only
  rw [cursorCommit_hexText (hwidth _ _ hrow), ok_bind, hcount]
  rw [hfree, loadVersion_ok.mpr hrow]
  rfl

theorem decodePending_fold {ready : ExtTreeSet ReadyKey} (entries : List (HashId × Nat))
    (pending : ExtTreeMap HashId Nat) (hpairs : entries.Pairwise (fun a b => a.1 ≠ b.1))
    (hnew : ∀ entry ∈ entries, pending[entry.1]? = none)
    (hrows : ∀ entry ∈ entries, Stored commits entry.1 ∧ 0 < entry.2 ∧ entry.2 < 2 ^ 64 ∧
      ∀ key ∈ ready, (key : ReadyKey).2 ≠ entry.1) :
    (entries.map pendingText).foldlM (decodePendingEntry commits ready) pending =
      .ok (entries.foldl (fun map entry => map.insert entry.1 entry.2) pending) := by
  induction entries generalizing pending with
  | nil => rfl
  | cons entry entries ih =>
    obtain ⟨hstored, hpos, hlt, hready⟩ := hrows entry (.head _)
    obtain ⟨hkey, hrest⟩ := List.pairwise_cons.mp hpairs
    have hpass := decodePendingEntry_ok hwidth (hnew entry (.head _)) hstored hpos hlt
      hready
    have hnew' : ∀ e ∈ entries, (pending.insert entry.1 entry.2)[e.1]? = none := by
      intro e he
      rw [lookup_insert, if_neg (Ne.symm (hkey e he))]
      exact hnew e (.tail _ he)
    have hfold := ih (pending.insert entry.1 entry.2) hrest hnew'
      fun e he => hrows e (.tail _ he)
    rw [List.map_cons, List.foldlM_cons, hpass, ok_bind, hfold, List.foldl_cons]

theorem decodeLogReady_encode (h : t.Sound commits) :
    decodeLogReady commits (encodeReady t.ready) = .ok t.ready := by
  have hrows : ∀ key ∈ t.ready.toList, ∃ row, commits[key.2]? = some row ∧
      key.1.value = row.metadata.committedAt := fun key hk =>
    h.ready key (ExtTreeSet.mem_toList.mp hk)
  have hnodup : t.ready.toList.Nodup :=
    ExtTreeSet.distinct_toList.imp fun hne he => hne (by rw [he]; exact ReflCmp.compare_self)
  obtain ⟨ready', hfold, hmem⟩ := decodeReady_fold hwidth t.ready.toList ∅ hnodup
    (fun key _ => ExtTreeSet.not_mem_empty) hrows
  have hparts : ((encodeReady t.ready).splitOn ',').filter (· ≠ []) =
      t.ready.toList.map fun key => hexText key.2 := by
    refine split_join (fun part hpart => ?_) fun part hpart => ?_
    · obtain ⟨key, hkey, rfl⟩ := List.mem_map.mp hpart
      obtain ⟨row, hrow, _⟩ := hrows key hkey
      exact hexText_ne_nil (hwidth _ _ hrow)
    · obtain ⟨key, hkey, rfl⟩ := List.mem_map.mp hpart
      exact not_mem_hexText rfl _
  have hsame : ready' = t.ready := by
    refine ExtTreeSet.ext_mem fun key => ?_
    rw [hmem, ExtTreeSet.mem_toList]
    simp
  unfold decodeLogReady
  rw [hparts, hfold, hsame]

theorem decodeLogPending_encode (h : t.Sound commits) :
    decodeLogPending commits (encodePending t.pendingChildren) t.ready = .ok t.pendingChildren := by
  have hfold := decodePending_fold hwidth t.pendingChildren.toList ∅ (toList_keys_ne _)
    (fun entry _ => ExtTreeMap.getElem?_empty)
    (fun entry he => h.pending entry.1 entry.2 (lookup_of_mem he))
  have hparts : ((encodePending t.pendingChildren).splitOn ';').filter (· ≠ []) =
      t.pendingChildren.toList.map pendingText := by
    refine split_join (fun part hpart => ?_) fun part hpart => ?_
    · obtain ⟨entry, hentry, rfl⟩ := List.mem_map.mp hpart
      exact pendingText_ne_nil entry
    · obtain ⟨entry, hentry, rfl⟩ := List.mem_map.mp hpart
      exact not_mem_pendingText (by decide) (by decide) (by decide) entry
  have hsame := insertEntries_empty t.pendingChildren
  unfold insertEntries at hsame
  rw [ExtTreeMap.foldl_eq_foldl_toList] at hsame
  unfold decodeLogPending
  rw [hparts, hfold, hsame]

omit hwidth in
theorem no_colon (blake3 : Bytes → Bytes) (t : LogTraversal) : ∀ part ∈ ["log2".toList,
    hexText t.start, encodeReady t.ready, encodePending t.pendingChildren,
    logChecksum blake3 (logPayload t)], ':' ∉ part := by
  have hhex : ∀ id, ':' ∉ hexText id := fun id => not_mem_hexText (by decide) id
  simp only [List.mem_cons, List.not_mem_nil, or_false, forall_eq_or_imp, forall_eq]
  refine ⟨by decide, hhex _, ?_, ?_, fun hmem => hhex _ (List.mem_of_mem_take hmem)⟩
  · refine not_mem_join (by decide) fun part hpart => ?_
    obtain ⟨key, _, rfl⟩ := List.mem_map.mp hpart
    exact hhex _
  · refine not_mem_join (by decide) fun part hpart => ?_
    obtain ⟨entry, _, rfl⟩ := List.mem_map.mp hpart
    exact not_mem_pendingText (by decide) (by decide) (by decide) entry

omit hwidth in
theorem logCursorParts_encode (blake3 : Bytes → Bytes) (t : LogTraversal) :
    logCursorParts blake3 (encodeLogCursor blake3 t) =
      .ok (hexText t.start, encodeReady t.ready, encodePending t.pendingChildren) := by
  have hcolon := no_colon blake3 t
  have hjoin : encodeLogCursor blake3 t = [':'].intercalate ["log2".toList, hexText t.start,
      encodeReady t.ready, encodePending t.pendingChildren, logChecksum blake3 (logPayload t)] := by
    unfold encodeLogCursor
    unfold logPayload join
    simp only [List.intercalate_cons_cons, List.intercalate_singleton, List.append_assoc,
      List.cons_append, List.nil_append]
  have hsplit := List.splitOn_intercalate ':' hcolon (List.cons_ne_nil _ _)
  have hsame : ∀ text : Text, refuseWhen (decide (text ≠ text)) invalidLogCursor = .ok () :=
    fun text => refuseWhen_ok.mpr (by simp)
  have hlast : rsplitOnce ':' (encodeLogCursor blake3 t) =
      some (logPayload t, logChecksum blake3 (logPayload t)) :=
    rsplitOnce_append (hcolon _ (by simp))
  unfold logCursorParts
  rw [hlast, hjoin, hsplit]
  show (do
    refuseWhen (decide ("log2".toList ≠ "log2".toList)) invalidLogCursor
    _) = _
  rw [hsame, ok_bind]
  dsimp only
  rw [hsame, ok_bind]

/-- **A cursor decodes to the traversal it was made from.** -/
theorem decodeLogCursor_encode (h : t.Sound commits) (blake3 : Bytes → Bytes) :
    decodeLogCursor blake3 commits (encodeLogCursor blake3 t) = .ok t := by
  obtain ⟨row, hrow⟩ := h.start
  have hempty : (t.ready.isEmpty && !t.pendingChildren.isEmpty) = false := by
    by_cases hr : t.ready = ∅
    · rw [h.goesOn hr]
      simp
    · simp [ExtTreeSet.isEmpty_eq_false_iff.mpr hr]
  unfold decodeLogCursor
  rw [logCursorParts_encode, ok_bind]
  dsimp only
  rw [cursorCommit_hexText (hwidth _ _ hrow), ok_bind, loadVersion_ok.mpr hrow, ok_bind,
    decodeLogReady_encode hwidth h, ok_bind, decodeLogPending_encode hwidth h, ok_bind, hempty]
  rfl

end

end Lithograph.Version
