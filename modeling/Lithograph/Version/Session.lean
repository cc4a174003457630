/-
  File:      Lithograph/Version/Session.lean
  Subject:   Merge sessions in storage (`storage/version/session.rs`), and what holds of the version
             tables between two calls.

  `Coherent` is the invariant that ties references, sessions and the liveness of commits together.

  * `coherent_committed`, `coherent_collected`, `coherent_opened`: every write keeps it.
-/
import Lithograph.Version.Store

namespace Lithograph.Version

open Std Library Storage

/-! ## 1. The writes -/

/-- `INSERT INTO _lithograph_merge_sessions`. -/
def insertSession (id : Text) (record : MergeSessionRecord) : StorageTx Unit := fun store =>
  if store.sessions.contains id then
    .error (.constraint "UNIQUE constraint failed: _lithograph_merge_sessions.id") store
  else .ok () { store with sessions := store.sessions.insert id record }

def requirePinned (ours theirs : HashId) (store : Store) : StorageResult Unit :=
  if commitExists store ours ∧ commitExists store theirs then .ok ()
  else .error (.notFound "pinned merge Commit")

/-- The recheck of `expected_head` under the write lock. -/
def requireExpectedHead (targetBranch : Text) (ours : HashId) (expectedHead : Option HashId)
    (store : Store) : StorageResult Unit :=
  match expectedHead with
  | none => .ok ()
  | some expected => do
    let head ← branchHead targetBranch store
    if head = expected ∧ expected = ours then .ok () else .error .branchHeadMoved

/-- `create_merge_session`, with the identity that was drawn. -/
def createMergeSession (id targetBranch : Text) (ours theirs : HashId)
    (expectedHead : Option HashId) (createdAt : Int) : StorageTx MergeSessionRecord := do
  let record : MergeSessionRecord := { targetBranch, ours, theirs, revision := 1, createdAt }
  insertSession id record
  reading (requirePinned ours theirs)
  reading (requireExpectedHead targetBranch ours expectedHead)
  pure record

/-- The row a revision check finds: no row is `notFound`, another revision `branchHeadMoved`. -/
def requireRevision (session : Text) (expectedRevision : Int) (store : Store) :
    StorageResult MergeSessionRecord :=
  match store.sessions[session]? with
  | none => .error (.notFound ("Merge Session " ++ debugText session))
  | some record =>
    if record.revision = expectedRevision then .ok record else .error .branchHeadMoved

/-- `INSERT … ON CONFLICT DO UPDATE`, one row for each replacement. -/
def upsertResolutions (session : Text) (replacements : ExtTreeMap HashId Text)
    (rows : ExtTreeMap (Text × HashId) Text) : ExtTreeMap (Text × HashId) Text :=
  replacements.foldl (fun rows conflict resolution => rows.insert (session, conflict) resolution)
    rows

/-- `UPDATE … SET revision = revision + 1 WHERE id … AND revision …`. -/
def bumpRevision (session : Text) (expectedRevision : Int) : StorageTx Unit := do
  let record ← reading (requireRevision session expectedRevision)
  writing fun store => { store with
    sessions := store.sessions.insert session { record with revision := record.revision + 1 } }

def updateMergeResolutions (session : Text) (expectedRevision : Int)
    (replacements : ExtTreeMap HashId Text) (changed : Bool) : StorageTx Int := do
  let _ ← reading (requireRevision session expectedRevision)
  writing fun store => { store with
    resolutions := upsertResolutions session replacements store.resolutions }
  if changed then do
    bumpRevision session expectedRevision
    pure (expectedRevision + 1)
  else pure expectedRevision

/-- `DELETE FROM _lithograph_merge_resolutions WHERE session_id = ?1`. -/
def deleteResolutions (session : Text) (store : Store) : Store :=
  { store with resolutions := store.resolutions.filter fun row _ => row.1 ≠ session }

/-- `delete_merge_session`: whether there was such a session; another revision is an error. -/
def deleteMergeSession (session : Text) (expectedRevision : Int) : StorageTx Bool := do
  match ← reading fun store => .ok store.sessions[session]? with
  | none => pure false
  | some record =>
    if record.revision = expectedRevision then do
      writing fun store => { store with sessions := store.sessions.erase session }
      writing (deleteResolutions session)
      pure true
    else lifted (.error .branchHeadMoved)

/-! ## 2. What each write leaves behind -/

variable {session : Text} {expectedRevision : Int} {store store' : Store}
  {record : MergeSessionRecord}

theorem requireRevision_ok : requireRevision session expectedRevision store = .ok record ↔
      store.sessions[session]? = some record ∧ record.revision = expectedRevision := by
  unfold requireRevision
  cases store.sessions[session]? with
  | none => simp
  | some actual =>
    show (if actual.revision = expectedRevision then _ else _) = _ ↔ _
    by_cases hr : actual.revision = expectedRevision
    · rw [if_pos hr]
      constructor
      · intro h
        cases h
        exact ⟨rfl, hr⟩
      · rintro ⟨h, _⟩
        cases h
        rfl
    · rw [if_neg hr]
      constructor
      · intro h
        cases h
      · rintro ⟨h, he⟩
        cases h
        exact absurd he hr

theorem createMergeSession_ok {id targetBranch : Text} {ours theirs : HashId}
    {expectedHead : Option HashId} {createdAt : Int}
    (h : createMergeSession id targetBranch ours theirs expectedHead createdAt store =
      .ok record store') :
    store.sessions[id]? = none ∧ Stored store.commits ours ∧ Stored store.commits theirs ∧
      record = ⟨targetBranch, ours, theirs, 1, createdAt⟩ ∧
      store' = { store with sessions := store.sessions.insert id record } := by
  unfold createMergeSession at h
  rw [tx_bind_ok] at h
  obtain ⟨_, mid, hinsert, h⟩ := h
  simp only [tx_bind_ok, reading_ok, tx_pure_ok] at h
  obtain ⟨_, _, ⟨hpinned, rfl⟩, _, _, ⟨_, rfl⟩, rfl, rfl⟩ := h
  unfold insertSession at hinsert
  split at hinsert
  · cases hinsert
  · rename_i hnew
    cases hinsert
    unfold requirePinned at hpinned
    split at hpinned
    · rename_i hboth
      have hours : Stored store.commits ours := stored_of_exists hboth.1
      have htheirs : Stored store.commits theirs := stored_of_exists hboth.2
      refine ⟨?_, hours, htheirs, rfl, rfl⟩
      cases hs : store.sessions[id]? with
      | none => rfl
      | some old =>
        refine absurd ?_ hnew
        rw [← ExtTreeMap.isSome_getElem?_eq_contains, hs]
        rfl
    · cases hpinned

theorem getElem?_upsertResolutions (session : Text) (replacements : ExtTreeMap HashId Text)
    (rows : ExtTreeMap (Text × HashId) Text) (id : Text) (conflict : HashId) :
    (upsertResolutions session replacements rows)[(id, conflict)]? =
      if id = session then (replacements[conflict]?).or rows[(id, conflict)]?
      else rows[(id, conflict)]? := by
  unfold upsertResolutions
  have h := foldl_lookup (m := replacements)
    (fun (rows : ExtTreeMap (Text × HashId) Text) (c : HashId) => rows[(session, c)]?)
    (fun _ resolution _ => some resolution) (s := rows)
    (fun s k v _ j => by
      show (s.insert (session, k) v)[(session, j)]? = _
      rw [lookup_insert]
      simp only [Prod.mk.injEq, true_and])
    conflict
  by_cases hid : id = session
  · subst hid
    rw [if_pos rfl]
    refine Eq.trans h ?_
    cases replacements[conflict]? with
    | none => rfl
    | some resolution => rfl
  · rw [if_neg hid]
    -- the rows of another session are untouched by every pass
    have hother := foldl_lookup (m := replacements)
      (fun (rows : ExtTreeMap (Text × HashId) Text) (_ : HashId) => rows[(id, conflict)]?)
      (fun _ _ old => old) (s := rows)
      (fun s k v _ j => by
        show (s.insert (session, k) v)[(id, conflict)]? = _
        rw [lookup_insert, if_neg fun e => hid (Prod.mk.inj e).1]
        simp only [ite_self])
      conflict
    refine Eq.trans hother ?_
    cases replacements[conflict]? with
    | none => rfl
    | some resolution => rfl

/-- **An accepted update of resolutions** raises the revision exactly when something changed. -/
theorem updateMergeResolutions_ok {replacements : ExtTreeMap HashId Text} {changed : Bool}
    {revision : Int}
    (h : updateMergeResolutions session expectedRevision replacements changed store =
      .ok revision store') :
    ∃ record, store.sessions[session]? = some record ∧ record.revision = expectedRevision ∧
      revision = (if changed then record.revision + 1 else record.revision) ∧
      (∀ id, store'.sessions[id]? =
        if id = session then some { record with revision := revision } else store.sessions[id]?) ∧
      store' = { store with
        sessions := store'.sessions
        resolutions := upsertResolutions session replacements store.resolutions } := by
  unfold updateMergeResolutions at h
  simp only [tx_bind_ok, reading_ok, writing_ok] at h
  obtain ⟨record, _, ⟨hrec, rfl⟩, _, _, rfl, h⟩ := h
  obtain ⟨hrow, rfl⟩ := requireRevision_ok.mp hrec
  refine ⟨record, hrow, rfl, ?_⟩
  cases changed with
  | false =>
    obtain ⟨rfl, rfl⟩ := tx_pure_ok.mp h
    refine ⟨rfl, fun id => ?_, rfl⟩
    by_cases hid : id = session
    · rw [if_pos hid, hid]
      exact hrow
    · rw [if_neg hid]
  | true =>
    unfold bumpRevision at h
    simp only [if_true, tx_bind_ok, reading_ok, writing_ok, tx_pure_ok] at h
    obtain ⟨_, _, ⟨record', _, ⟨hrec', rfl⟩, rfl⟩, rfl, rfl⟩ := h
    have hrow' := (requireRevision_ok.mp hrec').1
    have hsame : record' = record := by
      have e : store.sessions[session]? = some record' := hrow'
      rw [hrow] at e
      cases e
      rfl
    subst hsame
    exact ⟨rfl, fun id => lookup_insert store.sessions session id _, rfl⟩

/-- **A deleted session stood at the expected revision.** -/
theorem deleteMergeSession_ok {found : Bool}
    (h : deleteMergeSession session expectedRevision store = .ok found store') :
    (found = false ∧ store.sessions[session]? = none ∧ store' = store) ∨
      ∃ record, found = true ∧ store.sessions[session]? = some record ∧
        record.revision = expectedRevision ∧
        store' = deleteResolutions session
          { store with sessions := store.sessions.erase session } := by
  unfold deleteMergeSession at h
  rw [tx_bind_ok] at h
  obtain ⟨row, _, hread, h⟩ := h
  obtain ⟨hrow, rfl⟩ := reading_ok.mp hread
  have hrow' : store.sessions[session]? = row := by injection hrow
  cases row with
  | none =>
    obtain ⟨rfl, rfl⟩ := tx_pure_ok.mp h
    exact .inl ⟨rfl, hrow', rfl⟩
  | some record =>
    simp only at h
    split at h
    · rename_i hrev
      obtain ⟨_, _, rfl, _, _, rfl, rfl, rfl⟩ := h
      exact .inr ⟨record, rfl, hrow', hrev, rfl⟩
    · cases (lifted_ok.mp h).1

theorem getElem?_deleteResolutions (session : Text) (store : Store) (id : Text)
    (conflict : HashId) :
    (deleteResolutions session store).resolutions[(id, conflict)]? =
      if id = session then none else store.resolutions[(id, conflict)]? := by
  show (store.resolutions.filter _)[(id, conflict)]? = _
  rw [ExtTreeMap.getElem?_filter']
  by_cases hid : id = session
  · rw [if_pos hid]
    cases store.resolutions[(id, conflict)]? with
    | none => rfl
    | some t => simp [hid]
  · rw [if_neg hid]
    cases store.resolutions[(id, conflict)]? with
    | none => rfl
    | some t => simp [hid]

/-! ## 3. What holds between two calls -/

/-- **The version tables hang together**: what a commit, a reference or a session names exists, and
    a resolution belongs to an open session. -/
structure Coherent (store : Store) : Prop where
  parents : ∀ (c : HashId) (row : CommitRecord), store.commits[c]? = some row → ∀ p ∈ row.parents,
    Stored store.commits p
  branches : ∀ (name : Text) (c : HashId), store.branches[name]? = some c → Stored store.commits c
  tags : ∀ (name : Text) (c : HashId), store.tags[name]? = some c → Stored store.commits c
  pins : ∀ (id : Text) (record : MergeSessionRecord), store.sessions[id]? = some record →
    Stored store.commits record.ours ∧ Stored store.commits record.theirs
  owned : ∀ (id : Text) (conflict : HashId) (t : Text),
    store.resolutions[(id, conflict)]? = some t → ∃ record, store.sessions[id]? = some record

theorem coherent_collected (hc : Coherent store) (h : Collected store store') :
    Coherent store' := by
  have hrest := h.rest
  have hroot : ∀ c ∈ gcRoots store, Stored store.commits c → Stored store'.commits c := by
    rintro c hmem ⟨row, hrow⟩
    exact ⟨row, h.roots c hmem row hrow⟩
  refine ⟨?_, ?_, ?_, ?_, ?_⟩
  · intro c row hrow p hp
    obtain ⟨row', hrow'⟩ := hc.parents c row (h.kept c row hrow) p hp
    exact ⟨row', h.closed c row p hrow hp row' hrow'⟩
  · intro name c hb
    rw [hrest] at hb
    refine hroot c ?_ (hc.branches name c hb)
    exact List.mem_append_left _ (List.mem_append_left _ (List.mem_map_of_mem (mem_of_lookup hb)))
  · intro name c ht
    rw [hrest] at ht
    refine hroot c ?_ (hc.tags name c ht)
    exact List.mem_append_left _ (List.mem_append_right _ (List.mem_map_of_mem (mem_of_lookup ht)))
  · intro id record hs
    rw [hrest] at hs
    obtain ⟨hours, htheirs⟩ := hc.pins id record hs
    have hmem := mem_of_lookup hs
    refine ⟨hroot _ ?_ hours, hroot _ ?_ htheirs⟩
    · exact List.mem_append_right _ (List.mem_append_left _ (List.mem_map_of_mem hmem))
    · exact List.mem_append_right _ (List.mem_append_right _ (List.mem_map_of_mem hmem))
  · intro id conflict t ht
    rw [hrest] at ht ⊢
    exact hc.owned id conflict t ht

theorem coherent_refs (hc : Coherent store) (hcommits : store'.commits = store.commits)
    (hsessions : store'.sessions = store.sessions)
    (hresolutions : store'.resolutions = store.resolutions)
    (hbranches : ∀ (name : Text) (c : HashId), store'.branches[name]? = some c →
      store.branches[name]? = some c ∨ Stored store.commits c)
    (htags : ∀ (name : Text) (c : HashId), store'.tags[name]? = some c →
      store.tags[name]? = some c ∨ Stored store.commits c) : Coherent store' := by
  refine ⟨?_, ?_, ?_, ?_, ?_⟩
  · rw [hcommits]
    exact hc.parents
  · intro name c hb
    rw [hcommits]
    rcases hbranches name c hb with hold | hnew
    · exact hc.branches name c hold
    · exact hnew
  · intro name c ht
    rw [hcommits]
    rcases htags name c ht with hold | hnew
    · exact hc.tags name c hold
    · exact hnew
  · rw [hcommits, hsessions]
    exact hc.pins
  · rw [hsessions, hresolutions]
    exact hc.owned

theorem ref_insert {m : ExtTreeMap Text HashId} {name name' : Text} {target c : HashId}
    {P : HashId → Prop} (ht : P target) (h : (m.insert name target)[name']? = some c) :
    m[name']? = some c ∨ P c := by
  rw [lookup_insert] at h
  split at h
  · cases h
    exact .inr ht
  · exact .inl h

theorem ref_erase {m : ExtTreeMap Text HashId} {name name' : Text} {c : HashId}
    {P : HashId → Prop} (h : (m.erase name)[name']? = some c) : m[name']? = some c ∨ P c := by
  rw [lookup_erase] at h
  split at h
  · cases h
  · exact .inl h

/-- **A commit keeps the tables together.** -/
theorem coherent_committed {L : Type} {content : CommitContent L} {branch : Text}
    {expectedHead : HashId} {secondParent : Option HashId} {layer : L} {metadata : CommitMetadata}
    {commit : HashId} (hc : Coherent store)
    (h : Committed content branch expectedHead secondParent layer metadata store store' commit) :
    Coherent store' := by
  have hkeep : ∀ c, Stored store.commits c → Stored store'.commits c := by
    rintro c ⟨row, hrow⟩
    unfold Stored
    rw [h.commits c]
    split
    · exact ⟨_, rfl⟩
    · exact ⟨row, hrow⟩
  have hnew : Stored store'.commits commit := ⟨_, by rw [h.commits commit, if_pos rfl]⟩
  refine ⟨?_, ?_, ?_, ?_, ?_⟩
  · intro c row hrow p hp
    rw [h.commits c] at hrow
    split at hrow
    · cases hrow
      unfold CommitRecord.parents commitRow at hp
      simp only [List.mem_filterMap, List.mem_cons, List.not_mem_nil, or_false, id_eq] at hp
      obtain ⟨_, hmem, rfl⟩ := hp
      rcases hmem with e | e
      · cases e
        exact hkeep _ (hc.branches branch _ h.head)
      · exact hkeep _ (h.parent2 _ e.symm)
    · exact hkeep p (hc.parents c row hrow p hp)
  · intro name c hb
    rw [h.branches] at hb
    rcases ref_insert (P := Stored store'.commits) hnew hb with hold | hP
    · exact hkeep c (hc.branches name c hold)
    · exact hP
  · intro name c ht
    rw [h.tags] at ht
    exact hkeep c (hc.tags name c ht)
  · intro id record hs
    rw [h.sessions] at hs
    obtain ⟨hours, htheirs⟩ := hc.pins id record hs
    exact ⟨hkeep _ hours, hkeep _ htheirs⟩
  · intro id conflict t ht
    rw [h.resolutions] at ht
    rw [h.sessions]
    exact hc.owned id conflict t ht

theorem coherent_opened (hc : Coherent store) {id : Text}
    (hours : Stored store.commits record.ours) (htheirs : Stored store.commits record.theirs) :
    Coherent { store with sessions := store.sessions.insert id record } := by
  refine ⟨hc.parents, hc.branches, hc.tags, ?_, ?_⟩
  · intro id' record' hs
    rw [lookup_insert] at hs
    split at hs
    · cases hs
      exact ⟨hours, htheirs⟩
    · exact hc.pins id' record' hs
  · intro id' conflict t ht
    show ∃ r, (store.sessions.insert id record)[id']? = some r
    rw [lookup_insert]
    split
    · exact ⟨record, rfl⟩
    · exact hc.owned id' conflict t ht

theorem coherent_resolved {revision : Int} {replacements : ExtTreeMap HashId Text}
    (hc : Coherent store) (hrow : store.sessions[session]? = some record)
    (hsessions : ∀ id, store'.sessions[id]? =
      if id = session then some { record with revision := revision } else store.sessions[id]?)
    (hrest : store' = { store with
      sessions := store'.sessions
      resolutions := upsertResolutions session replacements store.resolutions }) :
    Coherent store' := by
  rw [hrest]
  refine ⟨hc.parents, hc.branches, hc.tags, ?_, ?_⟩
  · intro id record' hs
    have hs' := hsessions id
    rw [show store'.sessions[id]? = some record' from hs] at hs'
    split at hs'
    · cases hs'
      exact hc.pins session record hrow
    · exact hc.pins id record' hs'.symm
  · intro id conflict t ht
    show ∃ r, store'.sessions[id]? = some r
    rw [hsessions id]
    have ht' : (upsertResolutions session replacements store.resolutions)[(id, conflict)]? =
        some t := ht
    rw [getElem?_upsertResolutions] at ht'
    split
    · exact ⟨_, rfl⟩
    · rename_i hne
      rw [if_neg hne] at ht'
      exact hc.owned id conflict t ht'

theorem coherent_closed {store : Store} {session : Text} (hc : Coherent store) :
    Coherent (deleteResolutions session
      { store with sessions := store.sessions.erase session }) := by
  refine ⟨hc.parents, hc.branches, hc.tags, ?_, ?_⟩
  · intro id record hs
    have hs' : (store.sessions.erase session)[id]? = some record := hs
    rw [lookup_erase] at hs'
    split at hs'
    · cases hs'
    · exact hc.pins id record hs'
  · intro id conflict t ht
    rw [getElem?_deleteResolutions] at ht
    show ∃ r, (store.sessions.erase session)[id]? = some r
    rw [lookup_erase]
    split at ht
    · cases ht
    · rename_i hne
      rw [if_neg hne]
      exact hc.owned id conflict t ht

end Lithograph.Version
