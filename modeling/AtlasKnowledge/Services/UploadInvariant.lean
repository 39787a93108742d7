/-
# What every call may rely on

The shared invariant of the upload system, what a call knows at each of its places, and what a step
of any other call or of the environment leaves to it.

* `Shared.Ok`, `Party.Knows`: the invariant, and the calls' assertions;
* `Party.Knows.mono`: what a call knows survives a step of another one;
* `put_original_ok`, `update_ok`, `delete_ok`, `holdDocument_ok`: the statements keep the invariant.
-/
import AtlasKnowledge.Services.UploadSystem
import AtlasKnowledge.Services.Writes

namespace AtlasKnowledge.Services.UploadSystem

open Interleave Transition
open Pagination (Timestamp)
open Pipeline (Stage DocStatus)
open Upload (Storage Exc safeName storageKey document)

/-! ## 1. Keys of the storage -/

/-- The key of an uploaded file. -/
def originalKey (id : Uuid) (suffix : Text) : Text :=
  storagePrefix id ++ ("original".toList ++ suffix)

theorem storageKey_eq (env : Env) (call : Upload.Call) :
    storageKey env call = originalKey call.documentId (env.lower (pathSuffix (safeName call))) := by
  simp [storageKey, originalKey]

theorem front_originalKey (id : Uuid) (suffix : Text) :
    storagePrefix id <+: originalKey id suffix := List.prefix_append _ _

theorem length_text (id : Uuid) : id.text.length = 36 := by
  simp [Uuid.text]

theorem storagePrefix_inj {a b : Uuid} (h : storagePrefix a = storagePrefix b) : a = b := by
  have htext : a.text = b.text :=
    List.append_cancel_left (List.append_cancel_right h)
  have hread := Uuid.ofText_text a
  rw [htext, Uuid.ofText_text] at hread
  exact (Option.some.inj hread).symm

/-- A key is below one prefix at most. -/
theorem id_of_front {a b : Uuid} {key : Text} (ha : storagePrefix a <+: key)
    (hb : storagePrefix b <+: key) : a = b := by
  have hsame : (storagePrefix a).length = (storagePrefix b).length := by
    unfold storagePrefix
    rw [List.length_append, List.length_append, List.length_append, List.length_append,
      length_text a, length_text b]
  have hfront : storagePrefix a <+: storagePrefix b :=
    List.prefix_of_prefix_length_le ha hb (Nat.le_of_eq hsame)
  exact storagePrefix_inj (hfront.eq_of_length hsame)

theorem originalKey_ne_normalizedKey (id id' : Uuid) (suffix : Text) :
    originalKey id suffix ≠ normalizedKey id' := by
  intro h
  have hnormalized : storagePrefix id' <+: originalKey id suffix := by
    rw [h]
    exact List.prefix_append _ _
  obtain rfl := id_of_front (front_originalKey id suffix) hnormalized
  have hrest : "original".toList ++ suffix = "normalized.json".toList := List.append_cancel_left h
  have hhead := congrArg List.head? hrest
  exact absurd hhead (by simp)

/-! ## 2. What there was -/

/-- The columns of a document that no statement changes. -/
def fixed (d : DocumentRow) : DocumentRow :=
  { d with status := .pending, error := none, updatedAt := d.createdAt }

namespace Shared

variable (w : Shared)

/-- The row is in the table, or was deleted from it. -/
def Had (row : DocumentRow) : Prop := row ∈ w.db.documents.rows ∨ row ∈ w.deleted

/-- There was a row of this document. -/
def Known (doc : DocumentRow) : Prop := ∃ row, w.Had row ∧ fixed row = fixed doc

/-- There was no row with this id. -/
def Unborn (id : Uuid) : Prop := ∀ row, w.Had row → row.id ≠ id

/-- There is no source with this id. -/
def SourceUnborn (id : Uuid) : Prop := ∀ s ∈ w.db.sources.rows, s.id ≠ id

/-- There was a document of the user with this checksum, which is none of those in `earlier`. -/
def Taken (earlier : List DocumentRow) (userId : Uuid) (checksum : Text) : Prop :=
  ∃ row, w.Had row ∧ (∀ old ∈ earlier, old.id ≠ row.id) ∧ row.uploadedBy = userId ∧
    row.checksum = checksum

/-- A document of the user with this checksum was deleted, which is none of those in `earlier`. -/
def Dropped (earlier : List DocumentRow) (userId : Uuid) (checksum : Text) : Prop :=
  ∃ row ∈ w.deleted, (∀ old ∈ earlier, old.id ≠ row.id) ∧ row.uploadedBy = userId ∧
    row.checksum = checksum

/-- The source is there and is the user's. -/
def SourceOf (userId id : Uuid) : Prop :=
  ∃ s ∈ w.db.sources.rows, s.id = id ∧ s.ownerId = userId

/-- The user has a default source. -/
def HasDefault (userId : Uuid) : Prop :=
  ∃ s ∈ w.db.sources.rows, s.ownerId = userId ∧ s.type = defaultSourceType

/-- The storage has the bytes of this document. -/
def Stored (env : Env) (row : DocumentRow) : Prop :=
  ∃ data, w.storage row.storageKey = some data ∧ env.sha256 data = row.checksum ∧
    data.length = row.sizeBytes

/-- **The shared invariant.** -/
structure Ok (env : Env) (w : Shared) : Prop where
  /-- One row for a user and a checksum, open transactions included. -/
  unique : ∀ a ∈ w.db.documents.rows, ∀ b ∈ w.db.documents.rows, a.uploadedBy = b.uploadedBy →
    a.checksum = b.checksum → a = b
  pending : ∀ d ∈ w.pendingDocuments, ∀ row ∈ w.db.documents.rows,
    ¬ (row.uploadedBy = d.uploadedBy ∧ row.checksum = d.checksum)
  pendings : ∀ d ∈ w.pendingDocuments, ∀ d' ∈ w.pendingDocuments, d.uploadedBy = d'.uploadedBy →
    d.checksum = d'.checksum → d = d'
  /-- The same for a user's default source. -/
  default : ∀ a ∈ w.db.sources.rows, ∀ b ∈ w.db.sources.rows, a.type = defaultSourceType →
    b.type = defaultSourceType → a.ownerId = b.ownerId → a = b
  pendingSource : ∀ s ∈ w.pendingSources, ¬ w.HasDefault s.ownerId
  pendingSources : ∀ s ∈ w.pendingSources, ∀ s' ∈ w.pendingSources, s.ownerId = s'.ownerId → s = s'
  /-- A document is in a source of its uploader, and its file is in the storage. -/
  source : ∀ row ∈ w.db.documents.rows, w.SourceOf row.uploadedBy row.sourceId
  key : ∀ row ∈ w.db.documents.rows, ∃ suffix, row.storageKey = originalKey row.id suffix
  stored : ∀ row ∈ w.db.documents.rows, w.Stored env row
  /-- What was deleted does not come back, and only that is purged. -/
  gone : ∀ row ∈ w.deleted, ∀ d ∈ w.db.documents.rows, d.id ≠ row.id
  purges : ∀ front ∈ w.purges, ∃ row ∈ w.deleted, front = storagePrefix row.id

end Shared

/-! ## 3. What a step leaves to the others -/

/-- A step of a party with these ids leaves the rest as it was: what there was stays known, and no
other id is touched. -/
structure Rely (own ownSource : Option Uuid) (w w' : Shared) : Prop where
  had : ∀ row, w.Had row → w'.Known row
  deleted : ∀ row ∈ w.deleted, row ∈ w'.deleted
  born : ∀ row, w'.Had row → (∃ old, w.Had old ∧ old.id = row.id) ∨ some row.id = own
  sources : ∀ s ∈ w.db.sources.rows, s ∈ w'.db.sources.rows
  sourceBorn : ∀ s ∈ w'.db.sources.rows, s ∈ w.db.sources.rows ∨ some s.id = ownSource
  stored : ∀ id suffix, w.Unborn id → some id ≠ own →
    w'.storage (originalKey id suffix) = w.storage (originalKey id suffix)
  pending : ∀ d ∈ w.pendingDocuments, some d.id ≠ own → d ∈ w'.pendingDocuments
  pendingSource : ∀ s ∈ w.pendingSources, some s.id ≠ ownSource → s ∈ w'.pendingSources

section Rely

variable {own ownSource : Option Uuid} {w w' : Shared} {userId id : Uuid} {checksum : Text}
  {doc : DocumentRow} {earlier : List DocumentRow}

theorem Rely.refl : Rely own ownSource w w where
  had row h := ⟨row, h, rfl⟩
  deleted _ h := h
  born row h := .inl ⟨row, h, rfl⟩
  sources _ h := h
  sourceBorn _ h := .inl h
  stored _ _ _ _ := rfl
  pending _ h _ := h
  pendingSource _ h _ := h

theorem fixed_id {a b : DocumentRow} (h : fixed a = fixed b) : a.id = b.id :=
  show (fixed a).id = (fixed b).id from congrArg DocumentRow.id h

theorem fixed_owner {a b : DocumentRow} (h : fixed a = fixed b) : a.uploadedBy = b.uploadedBy :=
  show (fixed a).uploadedBy = (fixed b).uploadedBy from congrArg DocumentRow.uploadedBy h

theorem fixed_checksum {a b : DocumentRow} (h : fixed a = fixed b) : a.checksum = b.checksum :=
  show (fixed a).checksum = (fixed b).checksum from congrArg DocumentRow.checksum h

theorem fixed_key {a b : DocumentRow} (h : fixed a = fixed b) : a.storageKey = b.storageKey :=
  show (fixed a).storageKey = (fixed b).storageKey from congrArg DocumentRow.storageKey h

theorem fixed_source {a b : DocumentRow} (h : fixed a = fixed b) : a.sourceId = b.sourceId :=
  show (fixed a).sourceId = (fixed b).sourceId from congrArg DocumentRow.sourceId h

theorem fixed_size {a b : DocumentRow} (h : fixed a = fixed b) : a.sizeBytes = b.sizeBytes :=
  show (fixed a).sizeBytes = (fixed b).sizeBytes from congrArg DocumentRow.sizeBytes h

variable (h : Rely own ownSource w w')
include h

theorem Rely.known (hdoc : w.Known doc) : w'.Known doc := by
  obtain ⟨row, hrow, hfixed⟩ := hdoc
  obtain ⟨row', hrow', hfixed'⟩ := h.had row hrow
  exact ⟨row', hrow', hfixed'.trans hfixed⟩

theorem Rely.unborn (hid : w.Unborn id) (hne : some id ≠ own) : w'.Unborn id := by
  intro row hrow heq
  rcases h.born row hrow with ⟨old, hold, hsame⟩ | hown
  · exact hid old hold (hsame.trans heq)
  · exact hne (heq ▸ hown)

theorem Rely.sourceUnborn (hid : w.SourceUnborn id) (hne : some id ≠ ownSource) :
    w'.SourceUnborn id := by
  intro s hs heq
  rcases h.sourceBorn s hs with hold | hown
  · exact hid s hold heq
  · exact hne (heq ▸ hown)

theorem Rely.taken (ht : w.Taken earlier userId checksum) : w'.Taken earlier userId checksum := by
  obtain ⟨row, hrow, hnew, howner, hchecksum⟩ := ht
  obtain ⟨row', hrow', hfixed⟩ := h.had row hrow
  exact ⟨row', hrow', fun old hold => fixed_id hfixed ▸ hnew old hold,
    (fixed_owner hfixed).trans howner, (fixed_checksum hfixed).trans hchecksum⟩

theorem Rely.dropped (hd : w.Dropped earlier userId checksum) :
    w'.Dropped earlier userId checksum := by
  obtain ⟨row, hrow, hmatch⟩ := hd
  exact ⟨row, h.deleted row hrow, hmatch⟩

theorem Rely.sourceOf (hs : w.SourceOf userId id) : w'.SourceOf userId id := by
  obtain ⟨s, hs, hmatch⟩ := hs
  exact ⟨s, h.sources s hs, hmatch⟩

theorem Rely.hasDefault (hs : w.HasDefault userId) : w'.HasDefault userId := by
  obtain ⟨s, hs, hmatch⟩ := hs
  exact ⟨s, h.sources s hs, hmatch⟩

end Rely

/-! ## 4. What a call knows -/

/-- What is said of the document that the call has in hand on its way through
`_restart_from_failed_stage` and `_enqueue_stage`, and of its answer.  No `IntegrityError` is raised
there. -/
def Pc.Carries (Q : DocumentRow → Bool → Prop) : Pc → Prop
  | .restarting doc => Q doc true
  | .resetting doc _ => Q doc true
  | .refreshing doc _ => Q doc true
  | .enqueueing doc _ deduplicated => Q doc deduplicated
  | .unqueued doc deduplicated => Q doc deduplicated
  | .refreshingFailed doc deduplicated => Q doc deduplicated
  | .returned doc deduplicated => Q doc deduplicated
  | .raised e => e ≠ .integrityError
  | _ => False

section Assertions

variable (env : Env) (w : Shared)

/-- The document of an upload's answer: the file's, and of this call if it is a new one. -/
def Uploaded (userId : Uuid) (call : Upload.Call) (doc : DocumentRow) (deduplicated : Bool) :
    Prop :=
  w.Known doc ∧ doc.uploadedBy = userId ∧ doc.checksum = env.sha256 call.data ∧
    (deduplicated = false → doc.id = call.documentId)

/-- The document that `retry` or `delete` was called for. -/
def Requested (userId documentId : Uuid) (doc : DocumentRow) : Prop :=
  w.Known doc ∧ doc.uploadedBy = userId ∧ doc.id = documentId

/-- The row that an upload is about to insert. -/
def IsNew (userId : Uuid) (call : Upload.Call) (doc : DocumentRow) : Prop :=
  ∃ mime sourceId, doc = document env userId call sourceId mime ∧ w.SourceOf userId sourceId

/-- What an upload knows at its place. -/
def UploadKnows (userId : Uuid) (call : Upload.Call) (newSourceId : Uuid)
    (earlier : List DocumentRow) : Pc → Prop
  | .entered => w.Unborn call.documentId ∧ w.SourceUnborn newSourceId
  | .resolving _ => w.Unborn call.documentId ∧ w.SourceUnborn newSourceId
  | .creatingSource _ => w.Unborn call.documentId ∧ w.SourceUnborn newSourceId
  | .committingSource _ row =>
    w.Unborn call.documentId ∧ w.SourceUnborn newSourceId ∧ row ∈ w.pendingSources ∧
      row.id = newSourceId ∧ row.ownerId = userId ∧ row.type = defaultSourceType
  | .sourceClashed _ => w.Unborn call.documentId ∧ w.HasDefault userId
  | .storing _ sourceId => w.Unborn call.documentId ∧ w.SourceOf userId sourceId
  | .creating doc =>
    w.Unborn call.documentId ∧ IsNew env w userId call doc ∧
      w.storage (storageKey env call) = some call.data
  | .committing doc =>
    w.Unborn call.documentId ∧ IsNew env w userId call doc ∧
      w.storage (storageKey env call) = some call.data ∧ doc ∈ w.pendingDocuments
  | .clashed doc =>
    w.Unborn call.documentId ∧ IsNew env w userId call doc ∧
      w.Taken earlier userId (env.sha256 call.data)
  | .rechecking => w.Taken earlier userId (env.sha256 call.data)
  | .raised e => e = .integrityError → w.Dropped earlier userId (env.sha256 call.data)
  | pc => pc.Carries (Uploaded env w userId call)

/-- What a retry knows at its place. -/
def RetryKnows (userId documentId : Uuid) : Pc → Prop
  | .entered => True
  | pc => pc.Carries fun doc _ => Requested w userId documentId doc

/-- What a delete knows at its place. -/
def DeleteKnows (userId documentId : Uuid) : Pc → Prop
  | .entered => True
  | .removed => True
  | .raised e => e ≠ .integrityError
  | .deleting doc => Requested w userId documentId doc
  | .purging doc => ∃ row ∈ w.deleted, row.id = doc.id
  | _ => False

/-- What a call knows at its place. -/
def Party.AtPc (p : Party) : Prop :=
  match p.request with
  | .upload call newSourceId => UploadKnows env w p.userId call newSourceId p.earlier p.pc
  | .retry documentId => RetryKnows w p.userId documentId p.pc
  | .delete documentId => DeleteKnows w p.userId documentId p.pc

/-- The same, with what a call keeps of the rows deleted before it. -/
structure Party.Knows (p : Party) : Prop where
  /-- What was deleted before the call stays so. -/
  earlier : ∀ row ∈ p.earlier, row ∈ w.deleted
  atPc : p.AtPc env w

end Assertions

section Stable

variable {env : Env} {own ownSource : Option Uuid} {w w' : Shared} {pc : Pc} {p : Party}
  {userId newSourceId documentId : Uuid} {call : Upload.Call} {earlier : List DocumentRow}

theorem Pc.Carries.imp {Q Q' : DocumentRow → Bool → Prop} (hQ : ∀ doc b, Q doc b → Q' doc b)
    (h : pc.Carries Q) : pc.Carries Q' := by
  cases pc with
  | raised e => exact h
  | restarting => exact hQ _ _ h
  | resetting => exact hQ _ _ h
  | refreshing => exact hQ _ _ h
  | enqueueing => exact hQ _ _ h
  | unqueued => exact hQ _ _ h
  | refreshingFailed => exact hQ _ _ h
  | returned => exact hQ _ _ h
  | _ => exact h.elim

/-- The last line of `UploadKnows`. -/
theorem UploadKnows.of_carries (h : pc.Carries (Uploaded env w userId call)) :
    UploadKnows env w userId call newSourceId earlier pc := by
  cases pc with
  | raised e => exact fun he => absurd he h
  | restarting => exact h
  | resetting => exact h
  | refreshing => exact h
  | enqueueing => exact h
  | unqueued => exact h
  | refreshingFailed => exact h
  | returned => exact h
  | _ => exact h.elim

theorem RetryKnows.of_carries (h : pc.Carries fun doc _ => Requested w userId documentId doc) :
    RetryKnows w userId documentId pc := by
  cases pc with
  | entered => exact h.elim
  | _ => exact h

variable (h : Rely own ownSource w w')
include h

theorem Uploaded.mono {doc : DocumentRow} {deduplicated : Bool}
    (hdoc : Uploaded env w userId call doc deduplicated) :
    Uploaded env w' userId call doc deduplicated :=
  ⟨h.known hdoc.1, hdoc.2⟩

theorem Requested.mono {doc : DocumentRow} (hdoc : Requested w userId documentId doc) :
    Requested w' userId documentId doc :=
  ⟨h.known hdoc.1, hdoc.2⟩

theorem IsNew.mono {doc : DocumentRow} (hdoc : IsNew env w userId call doc) :
    IsNew env w' userId call doc := by
  obtain ⟨mime, sourceId, heq, hsource⟩ := hdoc
  exact ⟨mime, sourceId, heq, h.sourceOf hsource⟩

/-- The file of another call is not touched while its document is not there. -/
theorem Rely.file (hunborn : w.Unborn call.documentId) (hne : some call.documentId ≠ own)
    (hfile : w.storage (storageKey env call) = some call.data) :
    w'.storage (storageKey env call) = some call.data := by
  rw [storageKey_eq] at hfile ⊢
  exact (h.stored _ _ hunborn hne).trans hfile

/-- **What another call knows stays true.** -/
theorem UploadKnows.mono (hknows : UploadKnows env w userId call newSourceId earlier pc)
    (hne : some call.documentId ≠ own) (hneSource : some newSourceId ≠ ownSource) :
    UploadKnows env w' userId call newSourceId earlier pc := by
  cases pc with
  | entered => exact ⟨h.unborn hknows.1 hne, h.sourceUnborn hknows.2 hneSource⟩
  | resolving => exact ⟨h.unborn hknows.1 hne, h.sourceUnborn hknows.2 hneSource⟩
  | creatingSource => exact ⟨h.unborn hknows.1 hne, h.sourceUnborn hknows.2 hneSource⟩
  | committingSource mime row =>
    obtain ⟨hunborn, hsource, hpending, hid, hrest⟩ := hknows
    exact ⟨h.unborn hunborn hne, h.sourceUnborn hsource hneSource,
      h.pendingSource row hpending (hid ▸ hneSource), hid, hrest⟩
  | sourceClashed => exact ⟨h.unborn hknows.1 hne, h.hasDefault hknows.2⟩
  | storing => exact ⟨h.unborn hknows.1 hne, h.sourceOf hknows.2⟩
  | creating doc =>
    obtain ⟨hunborn, hnew, hfile⟩ := hknows
    exact ⟨h.unborn hunborn hne, hnew.mono h, h.file hunborn hne hfile⟩
  | committing doc =>
    obtain ⟨hunborn, hnew, hfile, hpending⟩ := hknows
    have hid : doc.id = call.documentId := by
      obtain ⟨_, _, rfl, -⟩ := hnew
      rfl
    exact ⟨h.unborn hunborn hne, hnew.mono h, h.file hunborn hne hfile,
      h.pending doc hpending (hid ▸ hne)⟩
  | clashed doc =>
    obtain ⟨hunborn, hnew, htaken⟩ := hknows
    exact ⟨h.unborn hunborn hne, hnew.mono h, h.taken htaken⟩
  | rechecking => exact h.taken hknows
  | raised e => exact fun he => h.dropped (hknows he)
  | restarting => exact Uploaded.mono h hknows
  | resetting => exact Uploaded.mono h hknows
  | refreshing => exact Uploaded.mono h hknows
  | enqueueing => exact Uploaded.mono h hknows
  | unqueued => exact Uploaded.mono h hknows
  | refreshingFailed => exact Uploaded.mono h hknows
  | returned => exact Uploaded.mono h hknows
  | _ => exact hknows

theorem RetryKnows.mono (hknows : RetryKnows w userId documentId pc) :
    RetryKnows w' userId documentId pc := by
  by_cases hpc : pc = .entered
  · subst hpc
    trivial
  · have hcarries : pc.Carries fun doc _ => Requested w userId documentId doc := by
      cases pc with
      | entered => exact absurd rfl hpc
      | _ => exact hknows
    exact .of_carries (hcarries.imp fun _ _ => Requested.mono h)

theorem DeleteKnows.mono (hknows : DeleteKnows w userId documentId pc) :
    DeleteKnows w' userId documentId pc := by
  cases pc with
  | deleting doc => exact Requested.mono h hknows
  | purging doc =>
    obtain ⟨row, hrow, hid⟩ := hknows
    exact ⟨row, h.deleted row hrow, hid⟩
  | _ => exact hknows

theorem Party.Knows.mono (hknows : p.Knows env w)
    (hne : ∀ id, p.documentId? = some id → some id ≠ own)
    (hneSource : ∀ id, p.sourceId? = some id → some id ≠ ownSource) : p.Knows env w' := by
  refine ⟨fun row hrow => h.deleted row (hknows.earlier row hrow), ?_⟩
  have hpc := hknows.atPc
  obtain ⟨userId, request, earlier, pc⟩ := p
  cases request with
  | upload call newSourceId => exact UploadKnows.mono h hpc (hne _ rfl) (hneSource _ rfl)
  | retry documentId => exact RetryKnows.mono h hpc
  | delete documentId => exact DeleteKnows.mono h hpc

end Stable

/-! ## 5. One statement after the other -/

section Statements

variable {env : Env} {own ownSource : Option Uuid} {w : Shared} {id : Uuid} {key : Text}

theorem storage_put_of_ne {files : Storage} {key' : Text} {data : Bytes} (hne : key' ≠ key) :
    files.put key data key' = files key' := Function.update_of_ne hne _ _

theorem storage_put_self {files : Storage} {data : Bytes} :
    files.put key data key = some data := Function.update_self _ _ _

/-- What is below another prefix is not deleted. -/
theorem deletePrefix_of_ne {files : Storage} {id' : Uuid} (hkey : storagePrefix id' <+: key)
    (hne : id' ≠ id) : files.deletePrefix (storagePrefix id) key = files key := by
  unfold Storage.deletePrefix
  rw [if_neg]
  intro hfront
  exact hne (id_of_front hkey (List.isPrefixOf_iff_prefix.mp hfront))

/-- The storage changes, but not for the documents that are there. -/
theorem Shared.Ok.of_storage (h : w.Ok env) {files : Storage}
    (hkeep : ∀ row ∈ w.db.documents.rows, files row.storageKey = w.storage row.storageKey) :
    ({ w with storage := files } : Shared).Ok env where
  unique := h.unique
  pending := h.pending
  pendings := h.pendings
  default := h.default
  pendingSource := h.pendingSource
  pendingSources := h.pendingSources
  source := h.source
  key := h.key
  stored := by
    intro row hrow
    obtain ⟨data, hdata, hrest⟩ := h.stored row hrow
    exact ⟨data, (hkeep row hrow).trans hdata, hrest⟩
  gone := h.gone
  purges := h.purges

/-- The storage changes, but not for documents that are not there yet. -/
theorem rely_of_storage {files : Storage}
    (hkeep : ∀ id suffix, w.Unborn id → some id ≠ own →
      files (originalKey id suffix) = w.storage (originalKey id suffix)) :
    Rely own ownSource w { w with storage := files } where
  had row h := ⟨row, h, rfl⟩
  deleted _ h := h
  born row h := .inl ⟨row, h, rfl⟩
  sources _ h := h
  sourceBorn _ h := .inl h
  stored := hkeep
  pending _ h _ := h
  pendingSource _ h _ := h

theorem front_of_key (h : w.Ok env) {row : DocumentRow} (hrow : row ∈ w.db.documents.rows) :
    storagePrefix row.id <+: row.storageKey := by
  obtain ⟨suffix, hsuffix⟩ := h.key row hrow
  exact hsuffix ▸ front_originalKey row.id suffix

/-- A file under an id that no document has. -/
theorem put_original_ok (h : w.Ok env) (hunborn : w.Unborn id) (suffix : Text) (data : Bytes) :
    (w.put (originalKey id suffix) data).Ok env := by
  refine h.of_storage fun row hrow => storage_put_of_ne fun heq => ?_
  exact hunborn row (.inl hrow)
    (id_of_front (heq ▸ front_of_key h hrow) (front_originalKey id suffix))

theorem put_original_rely (suffix : Text) (data : Bytes) :
    Rely (some id) ownSource w (w.put (originalKey id suffix) data) := by
  refine rely_of_storage fun id' suffix' _ hne => storage_put_of_ne fun heq => hne ?_
  exact congrArg some
    (id_of_front (heq ▸ front_originalKey id' suffix') (front_originalKey id suffix))

theorem put_normalized_ok (h : w.Ok env) (data : Bytes) :
    (w.put (normalizedKey id) data).Ok env := by
  refine h.of_storage fun row hrow => storage_put_of_ne ?_
  obtain ⟨suffix, hsuffix⟩ := h.key row hrow
  exact hsuffix ▸ originalKey_ne_normalizedKey _ _ _

theorem put_normalized_rely (data : Bytes) :
    Rely own ownSource w (w.put (normalizedKey id) data) :=
  rely_of_storage fun _ _ _ _ => storage_put_of_ne (originalKey_ne_normalizedKey _ _ _)

/-- Nor is it touched where something is stuck. -/
theorem deletePrefix_storage_of_ne {id' : Uuid} {stuck : List Text}
    (hkey : storagePrefix id' <+: key) (hne : id' ≠ id) :
    (w.deletePrefix (storagePrefix id) stuck).storage key = w.storage key := by
  simp only [Shared.deletePrefix, Storage.deletePrefixBut, deletePrefix_of_ne hkey hne, ite_self]

theorem deletePrefix_ok {stuck : List Text} (h : w.Ok env)
    (hgone : ∀ row ∈ w.db.documents.rows, row.id ≠ id) :
    (w.deletePrefix (storagePrefix id) stuck).Ok env := by
  have hkeep : ∀ row ∈ w.db.documents.rows,
      (w.deletePrefix (storagePrefix id) stuck).storage row.storageKey =
        w.storage row.storageKey :=
    fun row hrow => deletePrefix_storage_of_ne (front_of_key h hrow) (hgone row hrow)
  exact { h.of_storage hkeep with }

/-- The prefix of the call's own id, or of a document that was there. -/
theorem deletePrefix_rely {stuck : List Text}
    (hid : some id = own ∨ ∃ row, w.Had row ∧ row.id = id) :
    Rely own ownSource w (w.deletePrefix (storagePrefix id) stuck) := by
  have hkeep : ∀ id' suffix, w.Unborn id' → some id' ≠ own →
      (w.deletePrefix (storagePrefix id) stuck).storage (originalKey id' suffix) =
        w.storage (originalKey id' suffix) := by
    intro id' suffix hunborn hne
    refine deletePrefix_storage_of_ne (front_originalKey id' suffix) fun heq => ?_
    subst heq
    rcases hid with hown | ⟨row, hrow, heq⟩
    · exact hne hown
    · exact hunborn row hrow heq
  have hrely : Rely own ownSource w
      { w with storage := (w.deletePrefix (storagePrefix id) stuck).storage } :=
    rely_of_storage hkeep
  exact { hrely with }

/-- The end of a transaction. -/
theorem release_ok (h : w.Ok env) (documentId sourceId : Uuid) :
    (w.release documentId sourceId).Ok env where
  unique := h.unique
  pending d hd := h.pending d (List.mem_of_mem_filter hd)
  pendings d hd d' hd' := h.pendings d (List.mem_of_mem_filter hd) d' (List.mem_of_mem_filter hd')
  default := h.default
  pendingSource s hs := h.pendingSource s (List.mem_of_mem_filter hs)
  pendingSources s hs s' hs' :=
    h.pendingSources s (List.mem_of_mem_filter hs) s' (List.mem_of_mem_filter hs')
  source := h.source
  key := h.key
  stored := h.stored
  gone := h.gone
  purges := h.purges

theorem release_rely (documentId sourceId : Uuid) :
    Rely (some documentId) (some sourceId) w (w.release documentId sourceId) where
  had row h := ⟨row, h, rfl⟩
  deleted _ h := h
  born row h := .inl ⟨row, h, rfl⟩
  sources _ h := h
  sourceBorn _ h := .inl h
  stored _ _ _ _ := rfl
  pending d hd hne := List.mem_filter.mpr ⟨hd, by simpa using hne⟩
  pendingSource s hs hne := List.mem_filter.mpr ⟨hs, by simpa using hne⟩

theorem lose_ok (h : w.Ok env) (front : Text) : (w.lose front).Ok env := { h with }

theorem Rely.lose {w' : Shared} (h : Rely own ownSource w w') (front : Text) :
    Rely own ownSource w (w'.lose front) := { h with }

theorem enqueuePurge_ok (h : w.Ok env) (hid : ∃ row ∈ w.deleted, row.id = id) :
    (w.enqueuePurge (storagePrefix id)).Ok env :=
  { h with
    purges := by
      intro front hfront
      rcases List.mem_append.mp hfront with hold | hnew
      · exact h.purges front hold
      · obtain ⟨row, hrow, rfl⟩ := hid
        exact ⟨row, hrow, List.mem_singleton.mp hnew⟩ }

theorem enqueuePurge_rely (front : Text) : Rely own ownSource w (w.enqueuePurge front) :=
  { Rely.refl (w := w) with }

/-! ### The table of documents -/

variable {status : DocStatus} {error : Option String} {now : Timestamp} {row : DocumentRow}

/-- An update changes what may change, of the rows that are there. -/
theorem mem_update (h : row ∈ (w.update id status error now).db.documents.rows) :
    ∃ old ∈ w.db.documents.rows, fixed old = fixed row ∧ row =
      if old.id = id then { old with status := status, error := error, updatedAt := now } else
        old := by
  obtain ⟨old, hold, rfl⟩ := List.mem_map.mp h
  refine ⟨old, hold, ?_, by simp⟩
  by_cases hid : old.id = id <;> simp [hid, fixed]

theorem exists_update (h : row ∈ w.db.documents.rows) :
    ∃ row' ∈ (w.update id status error now).db.documents.rows, fixed row' = fixed row := by
  refine ⟨_, List.mem_map_of_mem h, ?_⟩
  by_cases hid : row.id = id <;> simp [hid, fixed]

theorem update_ok (h : w.Ok env) : (w.update id status error now).Ok env where
  unique := by
    intro a ha b hb howner hchecksum
    obtain ⟨a₀, ha₀, hfixa, hvala⟩ := mem_update ha
    obtain ⟨b₀, hb₀, hfixb, hvalb⟩ := mem_update hb
    have hsame : a₀ = b₀ := by
      refine h.unique a₀ ha₀ b₀ hb₀ ?_ ?_
      · rw [fixed_owner hfixa, fixed_owner hfixb, howner]
      · rw [fixed_checksum hfixa, fixed_checksum hfixb, hchecksum]
    subst hsame
    rw [hvala, hvalb]
  pending := by
    intro d hd row hrow hmatch
    obtain ⟨old, hold, hfixed, -⟩ := mem_update hrow
    exact h.pending d hd old hold
      ⟨(fixed_owner hfixed).trans hmatch.1, (fixed_checksum hfixed).trans hmatch.2⟩
  pendings := h.pendings
  default := h.default
  pendingSource := h.pendingSource
  pendingSources := h.pendingSources
  source := by
    intro row hrow
    obtain ⟨old, hold, hfixed, -⟩ := mem_update hrow
    have hsource : old.sourceId = row.sourceId := fixed_source hfixed
    exact hsource ▸ fixed_owner hfixed ▸ h.source old hold
  key := by
    intro row hrow
    obtain ⟨old, hold, hfixed, -⟩ := mem_update hrow
    obtain ⟨suffix, hsuffix⟩ := h.key old hold
    exact ⟨suffix, (fixed_key hfixed).symm.trans (fixed_id hfixed ▸ hsuffix)⟩
  stored := by
    intro row hrow
    obtain ⟨old, hold, hfixed, -⟩ := mem_update hrow
    obtain ⟨data, hdata, hsha, hsize⟩ := h.stored old hold
    exact ⟨data, fixed_key hfixed ▸ hdata, hsha.trans (fixed_checksum hfixed),
      hsize.trans (fixed_size hfixed)⟩
  gone := by
    intro row hrow d hd
    obtain ⟨old, hold, hfixed, -⟩ := mem_update hd
    exact fixed_id hfixed ▸ h.gone row hrow old hold
  purges := h.purges

theorem update_rely : Rely own ownSource w (w.update id status error now) where
  had := by
    rintro row (hrow | hrow)
    · obtain ⟨row', hrow', hfixed⟩ := exists_update hrow
      exact ⟨row', .inl hrow', hfixed⟩
    · exact ⟨row, .inr hrow, rfl⟩
  deleted _ h := h
  born := by
    rintro row (hrow | hrow)
    · obtain ⟨old, hold, hfixed, -⟩ := mem_update hrow
      exact .inl ⟨old, .inl hold, fixed_id hfixed⟩
    · exact .inl ⟨row, .inr hrow, rfl⟩
  sources _ h := h
  sourceBorn _ h := .inl h
  stored _ _ _ _ := rfl
  pending _ h _ := h
  pendingSource _ h _ := h

/-- A deleted row is kept among the deleted ones. -/
theorem had_delete : (w.delete id).Had row ↔ w.Had row := by
  constructor
  · rintro (hrow | hrow)
    · exact .inl (List.mem_of_mem_filter hrow)
    · rcases List.mem_append.mp hrow with hold | hnew
      · exact .inr hold
      · exact .inl (List.mem_of_mem_filter hnew)
  · rintro (hrow | hrow)
    · by_cases hid : row.id = id
      · exact .inr (List.mem_append_right _ (List.mem_filter.mpr ⟨hrow, by simpa using hid⟩))
      · exact .inl (List.mem_filter.mpr ⟨hrow, by simpa using hid⟩)
    · exact .inr (List.mem_append_left _ hrow)

theorem delete_ok (h : w.Ok env) : (w.delete id).Ok env where
  unique a ha b hb := h.unique a (List.mem_of_mem_filter ha) b (List.mem_of_mem_filter hb)
  pending d hd row hrow := h.pending d hd row (List.mem_of_mem_filter hrow)
  pendings := h.pendings
  default := h.default
  pendingSource := h.pendingSource
  pendingSources := h.pendingSources
  source row hrow := h.source row (List.mem_of_mem_filter hrow)
  key row hrow := h.key row (List.mem_of_mem_filter hrow)
  stored row hrow := h.stored row (List.mem_of_mem_filter hrow)
  gone := by
    intro row hrow d hd
    obtain ⟨hd, hne⟩ := List.mem_filter.mp hd
    rcases List.mem_append.mp hrow with hold | hnew
    · exact h.gone row hold d hd
    · obtain ⟨-, hid⟩ := Table.mem_select.mp hnew
      rw [of_decide_eq_true hid]
      simpa using hne
  purges := by
    intro front hfront
    obtain ⟨row, hrow, heq⟩ := h.purges front hfront
    exact ⟨row, List.mem_append_left _ hrow, heq⟩

theorem delete_rely : Rely own ownSource w (w.delete id) where
  had row hrow := ⟨row, had_delete.mpr hrow, rfl⟩
  deleted _ h := List.mem_append_left _ h
  born row hrow := .inl ⟨row, had_delete.mp hrow, rfl⟩
  sources _ h := h
  sourceBorn _ h := .inl h
  stored _ _ _ _ := rfl
  pending _ h _ := h
  pendingSource _ h _ := h

/-- After the delete of a document that there was, it is among the deleted ones. -/
theorem deleted_of_known (hknown : w.Known row) :
    ∃ row' ∈ (w.delete row.id).deleted, row'.id = row.id := by
  obtain ⟨row', hrow' | hrow', hfixed⟩ := hknown
  · have hid : row'.id = row.id := fixed_id hfixed
    exact ⟨row', List.mem_append_right _ (List.mem_filter.mpr ⟨hrow', by simpa using hid⟩), hid⟩
  · exact ⟨row', List.mem_append_left _ hrow', fixed_id hfixed⟩

/-! ### Inserts -/

variable {doc : DocumentRow} {source : SourceRow} {db : Db}

/-- What a successful insert says of the table before and after it. -/
theorem insertDocument_some (h : w.db.insertDocument? doc = some db) :
    (∀ row ∈ w.db.documents.rows,
      ¬ (row.uploadedBy = doc.uploadedBy ∧ row.checksum = doc.checksum)) ∧
    (∀ row, row ∈ db.documents.rows ↔ row = doc ∨ row ∈ w.db.documents.rows) ∧
    db.sources = w.db.sources := by
  obtain ⟨hinsert, -, -, -, -, hsources⟩ := insertDocument_tables h
  refine ⟨fun row hrow hmatch => ?_, fun row => Table.mem_insert hinsert, hsources⟩
  rw [Db.insertDocument?, if_pos ⟨row, hrow, hmatch⟩] at h
  cases h

/-- An insert with an id of its own fails for the user's document with this checksum. -/
theorem insertDocument_none (h : w.db.insertDocument? doc = none) (hunborn : w.Unborn doc.id) :
    ∃ row ∈ w.db.documents.rows,
      row.uploadedBy = doc.uploadedBy ∧ row.checksum = doc.checksum := by
  unfold Db.insertDocument? at h
  split at h
  · rename_i htaken
    exact htaken
  · obtain ⟨documents, hinsert⟩ := Table.insert_of_free fun row hrow => hunborn row (.inl hrow)
    split at h
    · rename_i hnone
      cases hinsert.symm.trans hnone
    · cases h

theorem insertSource_some (h : w.db.insertSource? source = some db)
    (hdefault : source.type = defaultSourceType) :
    ¬ w.HasDefault source.ownerId ∧
    (∀ row, row ∈ db.sources.rows ↔ row = source ∨ row ∈ w.db.sources.rows) ∧
    db.documents = w.db.documents := by
  obtain ⟨hinsert, -, -, -, hdocuments, -⟩ := insertSource_tables h
  refine ⟨fun hmatch => ?_, fun row => Table.mem_insert hinsert, hdocuments⟩
  rw [Db.insertSource?, if_pos ⟨hdefault, hmatch⟩] at h
  cases h

theorem insertSource_none (h : w.db.insertSource? source = none)
    (hunborn : w.SourceUnborn source.id) : w.HasDefault source.ownerId := by
  unfold Db.insertSource? at h
  split at h
  · rename_i htaken
    exact htaken.2
  · obtain ⟨sources, hinsert⟩ := Table.insert_of_free hunborn
    rw [hinsert] at h
    cases h

/-- An insert that need not wait and does not clash is held until the commit. -/
theorem holdDocument_ok (h : w.Ok env) (hfree : w.blocksDocument doc = false)
    (hinsert : w.db.insertDocument? doc = some db) : (w.holdDocument doc).Ok env :=
  have hother : ∀ d ∈ w.pendingDocuments,
      ¬ (d.uploadedBy = doc.uploadedBy ∧ d.checksum = doc.checksum) := by
    intro d hd hmatch
    have hfound := List.any_eq_false.mp hfree d hd
    simp [hmatch.1, hmatch.2] at hfound
  { h with
    pending := by
      intro d hd
      rcases List.mem_cons.mp hd with rfl | hold
      · exact (insertDocument_some hinsert).1
      · exact h.pending d hold
    pendings := by
      intro d hd d' hd' howner hchecksum
      rcases List.mem_cons.mp hd with rfl | hold <;> rcases List.mem_cons.mp hd' with rfl | hold'
      · rfl
      · exact absurd ⟨howner.symm, hchecksum.symm⟩ (hother d' hold')
      · exact absurd ⟨howner, hchecksum⟩ (hother d hold)
      · exact h.pendings d hold d' hold' howner hchecksum }

theorem holdDocument_rely : Rely own ownSource w (w.holdDocument doc) :=
  { Rely.refl (w := w) with pending := fun _ hd _ => List.mem_cons_of_mem _ hd }

theorem holdSource_ok (h : w.Ok env) (hfree : w.blocksSource source = false)
    (hdefault : ¬ w.HasDefault source.ownerId) : (w.holdSource source).Ok env :=
  have hother : ∀ s ∈ w.pendingSources, s.ownerId ≠ source.ownerId := by
    intro s hs
    simpa using List.any_eq_false.mp hfree s hs
  { h with
    pendingSource := by
      intro s hs
      rcases List.mem_cons.mp hs with rfl | hold
      · exact hdefault
      · exact h.pendingSource s hold
    pendingSources := by
      intro s hs s' hs' howner
      rcases List.mem_cons.mp hs with rfl | hold <;> rcases List.mem_cons.mp hs' with rfl | hold'
      · rfl
      · exact absurd howner.symm (hother s' hold')
      · exact absurd howner (hother s hold)
      · exact h.pendingSources s hold s' hold' howner }

theorem holdSource_rely : Rely own ownSource w (w.holdSource source) :=
  { Rely.refl (w := w) with pendingSource := fun _ hs _ => List.mem_cons_of_mem _ hs }

end Statements

end AtlasKnowledge.Services.UploadSystem
