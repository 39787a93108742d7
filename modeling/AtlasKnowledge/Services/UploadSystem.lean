/-
# Uploads, retries and deletes of any number of users at once

The calls of `DocumentService` that write, each at its own place, on one database, one storage and
one broker.  A statement of a transaction is a step of its own.  The database is at `READ
COMMITTED`: what a transaction has inserted is seen by no other query before its commit, but an
insert that meets it in a unique index waits until that transaction has ended.

At every point of a call the statement may raise, and a commit may raise after it took effect.
The file may be stored in part, and a prefix removed in part.  The broker may take a message or not,
and deliver a purge more than once or lose it.  The pipeline moves the documents and writes
`normalized.json` whenever it likes.

Ghosts are the deleted rows, and the prefixes that nobody will clean any more: those of the calls
that raised between the storage and the commit, those whose purge was not taken or was lost, and
those that were removed in part.
-/
import AtlasKnowledge.Lib.Assertions
import AtlasKnowledge.Lib.Transition
import AtlasKnowledge.Services.Upload

namespace AtlasKnowledge.Services.UploadSystem

open Interleave Transition
open Pagination (Timestamp)
open Pipeline (Stage DocStatus)
open Upload (Storage Exc safeName storageKey document)

/-! ## 1. What the calls share -/

/-- What the calls share. -/
structure Shared where
  db : Db := .empty
  storage : Storage := fun _ => none
  /-- The rows that open transactions have inserted. -/
  pendingDocuments : List DocumentRow := []
  pendingSources : List SourceRow := []
  /-- The purge messages that the broker holds. -/
  purges : List Text := []
  deleted : List DocumentRow := []
  lost : List Text := []

namespace Shared

variable (w : Shared)

/-- The insert waits for an open transaction that holds the same `ux_documents_owner_checksum`. -/
def blocksDocument (doc : DocumentRow) : Bool :=
  w.pendingDocuments.any fun d => d.uploadedBy = doc.uploadedBy && d.checksum = doc.checksum

/-- The same for `ux_sources_owner_default`. -/
def blocksSource (row : SourceRow) : Bool :=
  w.pendingSources.any fun s => s.ownerId = row.ownerId

/-- The row is inserted, and the transaction is open. -/
def holdDocument (doc : DocumentRow) : Shared :=
  { w with pendingDocuments := doc :: w.pendingDocuments }

/-- The same for a source. -/
def holdSource (row : SourceRow) : Shared :=
  { w with pendingSources := row :: w.pendingSources }

/-- The end of a transaction, for its own rows. -/
def release (documentId sourceId : Uuid) : Shared :=
  { w with
    pendingDocuments := w.pendingDocuments.filter fun d => d.id ≠ documentId
    pendingSources := w.pendingSources.filter fun s => s.id ≠ sourceId }

def put (key : Text) (data : Bytes) : Shared := { w with storage := w.storage.put key data }

/-- A committed update of the status and the error. -/
def update (id : Uuid) (status : DocStatus) (error : Option String) (now : Timestamp) : Shared :=
  { w with db := w.db.updateDocument id status error now }

/-- A committed delete. -/
def delete (id : Uuid) : Shared :=
  { w with
    db := w.db.deleteDocument id
    deleted := w.deleted ++ w.db.documents.select fun d => d.id = id }

/-- `send_task` of `purge_document`. -/
def enqueuePurge (front : Text) : Shared := { w with purges := w.purges ++ [front] }

/-- Nobody will clean this prefix any more. -/
def lose (front : Text) : Shared := { w with lost := w.lost ++ [front] }

/-- `delete_prefix`, which may leave something. -/
def deletePrefix (front : Text) (stuck : List Text) : Shared :=
  { w with
    storage := w.storage.deletePrefixBut front stuck
    lost := if stuck = [] then w.lost else w.lost ++ [front] }

/-- What a call that raises leaves behind. -/
def loseHeld : Option Uuid → Shared
  | some id => w.lose (storagePrefix id)
  | none => w

end Shared

/-! ## 2. The calls -/

/-- A call of the service; an upload comes with the id that it draws if it has to make a source. -/
inductive Request where
  | upload (call : Upload.Call) (newSourceId : Uuid)
  | retry (documentId : Uuid)
  | delete (documentId : Uuid)

/-- Where a call stands: the statement that comes next, with the local variables it needs. -/
inductive Pc where
  | entered
  /-- The file is new: `_resolve_source_id`. -/
  | resolving (mime : String)
  | creatingSource (mime : String)
  | committingSource (mime : String) (row : SourceRow)
  | sourceClashed (mime : String)
  /-- `storage.put`. -/
  | storing (mime : String) (sourceId : Uuid)
  | creating (doc : DocumentRow)
  | committing (doc : DocumentRow)
  /-- The `IntegrityError` of the insert: rollback, and `delete_prefix`. -/
  | clashed (doc : DocumentRow)
  | rechecking
  /-- `_restart_from_failed_stage`. -/
  | restarting (doc : DocumentRow)
  | resetting (doc : DocumentRow) (stage : Stage)
  | refreshing (doc : DocumentRow) (stage : Stage)
  /-- `_enqueue_stage`. -/
  | enqueueing (doc : DocumentRow) (stage : Stage) (deduplicated : Bool)
  | unqueued (doc : DocumentRow) (deduplicated : Bool)
  | refreshingFailed (doc : DocumentRow) (deduplicated : Bool)
  | deleting (doc : DocumentRow)
  /-- `enqueue_purge_document`. -/
  | purging (doc : DocumentRow)
  | returned (doc : DocumentRow) (deduplicated : Bool)
  | removed
  | raised (e : Exc)

/-- A call, its arguments and where it stands. -/
structure Party where
  userId : Uuid
  request : Request
  /-- A ghost: the rows that were deleted before the call. -/
  earlier : List DocumentRow := []
  pc : Pc := .entered

/-- What the environment decides at a step: the statement succeeds, `first_failed_stage` has an
answer, a part of the file is stored, some files are not removed, the broker does not take the
message, the statement raises, or it raises though it took effect. -/
inductive Choice where
  | go (now : Timestamp)
  | answer (stage : Option Stage)
  | part (left : Bytes)
  | leaves (stuck : List Text)
  | unavailable
  | fails (name : String)
  | unacknowledged (name : String) (now : Timestamp)

/-- `_reset_if_failed`, up to its first query. -/
def resetIfFailed (doc : DocumentRow) : Pc :=
  if doc.status = .failed then .restarting doc else .returned doc true

/-- The flush of the session's row `doc`: an `UPDATE` of the columns that are no longer as they were
loaded, which raises if the row is gone, and none at all where there is no such column. -/
def written (w : Shared) (doc : DocumentRow) (status : DocStatus) (error : Option String)
    (now : Timestamp) (next : Pc) : Shared × Pc :=
  if doc.status = status ∧ doc.error = error then (w, next)
  else
    match w.db.documents.selectOne fun d => d.id = doc.id with
    | some row =>
      (w.update doc.id (if doc.status = status then row.status else status)
        (if doc.error = error then row.error else error) now, next)
    | none => (w, .raised (.other "StaleDataError"))

/-- `session.refresh`. -/
def refreshed (w : Shared) (doc : DocumentRow) (next : DocumentRow → Pc) : Pc :=
  match w.db.documents.selectOne fun d => d.id = doc.id with
  | some row => next row
  | none => .raised (.other "InvalidRequestError")

/-- `_restart_from_failed_stage` and `_enqueue_stage`. -/
def restartStep (w : Shared) : Pc → Choice → Option (Shared × Pc)
  | .restarting doc, .answer stage => some (w, .resetting doc (stage.getD .parse))
  | .resetting doc stage, .go now =>
    some (written w doc stage.entryStatus none now (.refreshing doc stage))
  | .resetting doc stage, .unacknowledged name now =>
    some (written w doc stage.entryStatus none now (.raised (.other name)))
  | .refreshing doc stage, .go _ => some (w, refreshed w doc fun row => .enqueueing row stage true)
  | .enqueueing doc _ deduplicated, .go _ => some (w, .returned doc deduplicated)
  | .enqueueing doc _ deduplicated, .unavailable => some (w, .unqueued doc deduplicated)
  | .unqueued doc deduplicated, .go now =>
    some (written w doc .failed (some enqueueFailedError) now (.refreshingFailed doc deduplicated))
  | .unqueued doc _, .unacknowledged name now =>
    some (written w doc .failed (some enqueueFailedError) now (.raised (.other name)))
  | .refreshingFailed doc deduplicated, .go _ =>
    some (w, refreshed w doc fun row => .returned row deduplicated)
  | _, _ => none

section Upload

variable (env : Env) (userId : Uuid) (call : Upload.Call) (newSourceId : Uuid) (w : Shared)

/-- The checks of `upload`, and its first query. -/
def enterUpload : Pc :=
  match canonicalMime env (safeName call) call.contentType with
  | .error e => .raised (.app e)
  | .ok mime =>
    match checkMagic mime call.data with
    | .error e => .raised (.app e)
    | .ok () =>
      match getByChecksum w.db userId (env.sha256 call.data) with
      | some existing => resetIfFailed existing
      | none => .resolving mime

/-- The first query of `_resolve_source_id`. -/
def resolveSource (mime : String) : Pc :=
  match call.sourceId with
  | some id =>
    match getOwnedSource w.db userId id with
    | some source => .storing mime source.id
    | none => .raised (.app AppError.sourceNotFound)
  | none =>
    match getDefaultSource w.db userId with
    | some existing => .storing mime existing.id
    | none => .creatingSource mime

/-- `create_default`. -/
def createSource (mime : String) (now : Timestamp) : Option (Shared × Pc) :=
  let row : SourceRow :=
    { id := newSourceId, ownerId := userId, name := defaultSourceName, type := defaultSourceType,
      createdAt := now, updatedAt := now }
  if w.blocksSource row then none
  else
    match w.db.insertSource? row with
    | some _ => some (w.holdSource row, .committingSource mime row)
    | none => some (w, .sourceClashed mime)

/-- The commit of `create_default`; the transaction ends, whatever comes of it. -/
def commitSource (mime : String) (row : SourceRow) (next : Pc) : Shared × Pc :=
  let ended := w.release call.documentId newSourceId
  match w.db.insertSource? row with
  | some db => ({ ended with db := db }, next)
  | none => (ended, .sourceClashed mime)

/-- The rollback after a clash, and the query that follows it. -/
def fallBack (mime : String) : Pc :=
  match getDefaultSource w.db userId with
  | some fallback => .storing mime fallback.id
  | none => .raised .integrityError

/-- `documents.create`. -/
def createDocument (doc : DocumentRow) : Option (Shared × Pc) :=
  if w.blocksDocument doc then none
  else
    match w.db.insertDocument? doc with
    | some _ => some (w.holdDocument doc, .committing doc)
    | none => some (w, .clashed doc)

/-- The commit of `create`, in the same way. -/
def commitDocument (doc : DocumentRow) (next : Pc) : Shared × Pc :=
  let ended := w.release call.documentId newSourceId
  match w.db.insertDocument? doc with
  | some db => ({ ended with db := db }, next)
  | none => (ended, .clashed doc)

/-- The query after a clash. -/
def recheck : Pc :=
  match getByChecksum w.db userId (env.sha256 call.data) with
  | some duplicate => resetIfFailed duplicate
  | none => .raised .integrityError

/-- `DocumentService.upload`, one statement. -/
def uploadStep : Pc → Choice → Option (Shared × Pc)
  | .entered, .go _ => some (w, enterUpload env userId call w)
  | .resolving mime, .go _ => some (w, resolveSource userId call w mime)
  | .creatingSource mime, .go now => createSource userId newSourceId w mime now
  | .committingSource mime row, .go _ =>
    some (commitSource call newSourceId w mime row (.storing mime row.id))
  | .committingSource mime row, .unacknowledged name _ =>
    some (commitSource call newSourceId w mime row (.raised (.other name)))
  | .sourceClashed mime, .go _ => some (w, fallBack userId w mime)
  | .storing mime sourceId, .go _ =>
    some (w.put (storageKey env call) call.data, .creating (document env userId call sourceId mime))
  | .storing _ _, .part left =>
    some ((w.put (storageKey env call) left).lose (storagePrefix call.documentId),
      .raised (.other "OSError"))
  | .creating doc, .go _ => createDocument w doc
  | .committing doc, .go _ =>
    some (commitDocument call newSourceId w doc (.enqueueing doc .parse false))
  | .committing doc, .unacknowledged name _ =>
    some (commitDocument call newSourceId w doc (.raised (.other name)))
  | .clashed _, .go _ => some (w.deletePrefix (storagePrefix call.documentId) [], .rechecking)
  | .clashed _, .leaves stuck =>
    some (w.deletePrefix (storagePrefix call.documentId) stuck, .rechecking)
  | .rechecking, .go _ => some (w, recheck env userId call w)
  | pc, c => restartStep w pc c

end Upload

/-- `DocumentService.retry`, one statement. -/
def retryStep (userId documentId : Uuid) (w : Shared) : Pc → Choice → Option (Shared × Pc)
  | .entered, .go _ =>
    match getOwnedDocument w.db userId documentId with
    | some doc =>
      if doc.status = .failed then some (w, .restarting doc)
      else some (w, .raised (.app AppError.documentNotRetryable))
    | none => some (w, .raised (.app AppError.documentNotFound))
  | pc, c => restartStep w pc c

/-- `DocumentService.delete`, one statement.  A purge that the broker does not take is only
logged. -/
def deleteStep (userId documentId : Uuid) (w : Shared) : Pc → Choice → Option (Shared × Pc)
  | .entered, .go _ =>
    match getOwnedDocument w.db userId documentId with
    | some doc => some (w, .deleting doc)
    | none => some (w, .raised (.app AppError.documentNotFound))
  | .deleting doc, .go _ => some (w.delete doc.id, .purging doc)
  | .deleting doc, .unacknowledged name _ =>
    some ((w.delete doc.id).lose (storagePrefix doc.id), .raised (.other name))
  | .purging doc, .go _ => some (w.enqueuePurge (storagePrefix doc.id), .removed)
  | .purging doc, .unavailable => some (w.lose (storagePrefix doc.id), .removed)
  | _, _ => none

/-- The call has ended. -/
def Pc.ended : Pc → Bool
  | .returned _ _ => true
  | .removed => true
  | .raised _ => true
  | _ => false

/-- The call has a file in the storage and no row, or has taken the row away. -/
def Pc.held : Pc → Option Uuid
  | .creating doc => some doc.id
  | .committing doc => some doc.id
  | .clashed doc => some doc.id
  | .purging doc => some doc.id
  | _ => none

/-- The statement raises: an open transaction is rolled back. -/
def Party.abort (p : Party) (w : Shared) : Shared :=
  match p.request with
  | .upload call newSourceId => (w.release call.documentId newSourceId).loseHeld p.pc.held
  | _ => w.loseHeld p.pc.held

/-- The next statement of a call. -/
def Party.advance (env : Env) (w : Shared) (p : Party) (c : Choice) : Option (Shared × Pc) :=
  match p.request with
  | .upload call newSourceId => uploadStep env p.userId call newSourceId w p.pc c
  | .retry documentId => retryStep p.userId documentId w p.pc c
  | .delete documentId => deleteStep p.userId documentId w p.pc c

/-- The next statement of a call, or its end by an exception. -/
def Party.step (env : Env) (w : Shared) (p : Party) : Choice → Option (Shared × Party)
  | .fails name =>
    if p.pc.ended then none else some (p.abort w, { p with pc := .raised (.other name) })
  | c => (p.advance env w c).map fun r => (r.1, { p with pc := r.2 })

/-! ## 3. The system -/

/-- The stored state and the calls. -/
abbrev Sys : Type := Par Shared Party

/-- The id that an upload has drawn for its document. -/
def Party.documentId? (p : Party) : Option Uuid :=
  match p.request with
  | .upload call _ => some call.documentId
  | _ => none

/-- And the one for a source. -/
def Party.sourceId? (p : Party) : Option Uuid :=
  match p.request with
  | .upload _ newSourceId => some newSourceId
  | _ => none

/-- What happens next. -/
inductive Label where
  /-- A call begins. -/
  | post (userId : Uuid) (request : Request)
  | act (i : Nat) (c : Choice)
  /-- A worker executes `purge_document`, which may leave something, and acknowledges the message or
  does not. -/
  | purge (i : Nat) (acked : Bool) (stuck : List Text)
  | losePurge (i : Nat)
  /-- The pipeline writes `normalized.json`. -/
  | normalize (documentId : Uuid) (data : Bytes)
  /-- The pipeline moves the document. -/
  | move (documentId : Uuid) (status : DocStatus) (error : Option String) (now : Timestamp)

/-- `normalized_key`. -/
def normalizedKey (documentId : Uuid) : Text :=
  storagePrefix documentId ++ "normalized.json".toList

/-- `new_id` draws no id twice. -/
def Sys.fresh (s : Sys) (p : Party) : Bool :=
  s.parties.all fun q =>
    (p.documentId?.isNone || q.documentId? ≠ p.documentId?) &&
      (p.sourceId?.isNone || q.sourceId? ≠ p.sourceId?)

/-- One step of the system. -/
def Sys.step (env : Env) (s : Sys) : Label → Option Sys
  | .post userId request =>
    let p : Party := { userId := userId, request := request, earlier := s.shared.deleted }
    if s.fresh p then some (s.spawn p) else none
  | .act i c => s.act (Party.step env) i c
  | .purge i acked stuck =>
    s.shared.purges[i]?.map fun front =>
      let w := s.shared.deletePrefix front stuck
      { s with shared := if acked then { w with purges := w.purges.eraseIdx i } else w }
  | .losePurge i =>
    s.shared.purges[i]?.map fun front =>
      { s with shared := { s.shared.lose front with purges := s.shared.purges.eraseIdx i } }
  | .normalize documentId data =>
    some { s with shared := s.shared.put (normalizedKey documentId) data }
  | .move documentId status error now =>
    some { s with shared := s.shared.update documentId status error now }

/-- Nothing is stored, and no call is under way. -/
def start : Sys := ⟨{}, []⟩

end AtlasKnowledge.Services.UploadSystem
