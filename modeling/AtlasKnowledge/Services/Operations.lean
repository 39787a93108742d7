/-
# The operations of the services

`ConversationService` (`application/conversation_service.py`), `DocumentService`
(`application/document_service.py`) and the first transaction of a chat turn
(`ChatOrchestrator._prepare_turn`), statement by statement, as operations on a database.

What a call draws from outside (the ids it may need, the time of its transactions, whether the
storage and the broker take what they are given) comes with the call; what goes to the storage
and to the broker is kept in order.
-/
import AtlasKnowledge.Lib.Observer
import AtlasKnowledge.Lib.Str
import AtlasKnowledge.Services.Queries

namespace AtlasKnowledge.Services

open Chat (ChatMessage ModelParams Role)
open Observer (read change)
open Pagination (Timestamp)
open Pipeline (Stage DocStatus)
open Str (strip)

/-! ## 1. States and draws -/

/-- What goes out to the storage and to the broker. -/
inductive Effect where
  | put (key : Text) (data : Bytes)
  | deletePrefix (key : Text)
  | enqueue (stage : Stage) (documentId : Uuid)
  | purge (key : Text)
  deriving DecidableEq

structure World where
  db : Db
  effects : List Effect := []

/-- Settings, and pure functions of other modules and libraries. -/
structure Env where
  localOffset : Datetime → Int
  sha256 : Bytes → Text
  lower : Text → Text
  defaultAlias : String
  aliases : String → Option ModelParams
  historyLimit : Nat
  systemPrompt : Text

/-- What one call draws: an id for the row it is about, one for a default source and one for an
assistant message, `now()` in its transactions, and whether the storage and the broker answer. -/
structure Draws where
  rowId : Uuid
  sourceId : Uuid
  assistantMessageId : Uuid
  now : Nat → Timestamp
  stores : Bool
  enqueues : Bool

/-- The ids a call draws. -/
def Draws.ids (draws : Draws) : List Uuid := [draws.rowId, draws.sourceId, draws.assistantMessageId]

/-- What an operation raises. -/
inductive Failure where
  | app (error : AppError)
  | integrityError
  | keyError
  | storageError
  deriving DecidableEq

/-- An operation of a service: what it returns or raises, and what it has changed by then. -/
abbrev Op (α : Type) : Type := Observer.Op World Failure α

variable {α : Type}

def raise (error : AppError) : Op α := throw (.app error)

/-- A `SELECT`. -/
def query (f : Db → α) : Op α := read fun w => f w.db

/-- An `UPDATE` or a `DELETE`, committed. -/
def execute (f : Db → Db) : Op Unit := change fun w => { w with db := f w.db }

/-- An `INSERT`, committed or rolled back: whether it went in. -/
def tryInsert (f : Db → Option Db) : Op Bool := fun w =>
  match f w.db with
  | some db => (.ok true, { w with db := db })
  | none => (.ok false, w)

/-- An effect outside of the database. -/
def emit (effect : Effect) : Op Unit := change fun w => { w with effects := w.effects ++ [effect] }

def ofExcept : Except AppError α → Op α
  | .ok a => pure a
  | .error e => raise e

variable (env : Env) (draws : Draws) (userId : Uuid)

/-! ## 2. Conversations -/

/-- `model_registry.resolve`: an alias that is gone falls back to the default one. -/
def resolve (modelAlias : String) : Op ModelParams :=
  match env.aliases modelAlias with
  | some params => pure params
  | none =>
    match env.aliases env.defaultAlias with
    | some params => pure params
    | none => throw .keyError

/-- `ConversationService.create`. -/
def createConversation (title : Option Text) (modelAlias : Option String) :
    Op ConversationRow := do
  let aliasName := match modelAlias with
    | some name => if name = "" then env.defaultAlias else name
    | none => env.defaultAlias
  if (env.aliases aliasName).isSome then
    let conv : ConversationRow :=
      { id := draws.rowId, userId := userId, title := title, modelAlias := aliasName,
        createdAt := draws.now 0, updatedAt := draws.now 0 }
    if ← tryInsert fun db => db.insertConversation? conv then pure conv
    else throw .integrityError
  else raise (AppError.validationError "model_alias 無效")

/-- `ConversationService.get`. -/
def getConversation (id : Uuid) : Op ConversationRow := do
  match ← query fun db => getOwnedConversation db userId id with
  | some conv => pure conv
  | none => raise AppError.conversationNotFound

/-- `ConversationService.rename`.  A title that is what it was is not written. -/
def renameConversation (id : Uuid) (title : Text) : Op ConversationRow := do
  let conv ← getConversation userId id
  if conv.title = some title then pure conv
  else
    execute fun db => db.updateConversation conv.id (some title) (draws.now 0)
    pure { conv with title := some title, updatedAt := draws.now 0 }

/-- `ConversationService.delete`. -/
def deleteConversation (id : Uuid) : Op Unit := do
  let conv ← getConversation userId id
  execute fun db => db.deleteConversation conv.id

/-- `ConversationService.list_messages`. -/
def listMessages (id : Uuid) (limit : Nat) (cursor : Option Text) :
    Op (List MessageRow × List (Uuid × List CitationRow) × Option Text) := do
  let _ ← getConversation userId id
  let page ← query fun db => messagePage env.localOffset db id limit cursor
  let (items, nextCursor) ← ofExcept page
  let citations ← query fun db => listForMessages db (items.map MessageRow.id)
  pure (items, citations, nextCursor)

/-! ## 3. Uploads -/

/-- `PurePosixPath(path).name`. -/
def pathName (path : Text) : Text :=
  ((path.splitOn '/').filter fun part => part ≠ [] ∧ part ≠ ['.']).getLastD []

/-- `PurePosixPath(path).suffix`. -/
def pathSuffix (path : Text) : Text :=
  let name := pathName path
  let ext := (name.reverse.takeWhile (· ≠ '.')).reverse
  if '.' ∈ name ∧ ext ≠ [] ∧ ext.length + 1 < name.length then '.' :: ext else []

/-- The canonical type of a Word document. -/
def docxMime : String := "application/vnd.openxmlformats-officedocument.wordprocessingml.document"

/-- `_EXT_TO_MIME`. -/
def extToMime : List (String × String) :=
  [(".pdf", "application/pdf"), (".docx", docxMime), (".txt", "text/plain"),
    (".md", "text/markdown"), (".html", "text/html"), (".htm", "text/html")]

/-- `_ACCEPTED_CONTENT_TYPES`. -/
def acceptedContentTypes : List (String × List String) :=
  [("application/pdf", ["application/pdf"]), (docxMime, [docxMime, "application/zip"]),
    ("text/plain", ["text/plain"]),
    ("text/markdown", ["text/markdown", "text/x-markdown", "text/plain"]),
    ("text/html", ["text/html", "text/plain"])]

/-- `_ALWAYS_ACCEPTED_CONTENT_TYPES`. -/
def alwaysAcceptedContentTypes : List String := ["", "application/octet-stream"]

/-- `canonical_mime`. -/
def canonicalMime (filename : Text) (contentType : Option Text) : Except AppError String :=
  match extToMime.lookup (String.ofList (env.lower (pathSuffix filename))) with
  | none => .error AppError.unsupportedMediaType
  | some mime =>
    let declared := String.ofList
      (env.lower (strip ((contentType.getD []).takeWhile (· ≠ ';'))))
    if declared ∈ alwaysAcceptedContentTypes then .ok mime
    else if declared ∈ (acceptedContentTypes.lookup mime).getD [] then .ok mime
    else .error AppError.unsupportedMediaType

/-- `_PDF_MAGIC`. -/
def pdfMagic : Bytes := [0x25, 0x50, 0x44, 0x46]

/-- `_check_magic`. -/
def checkMagic (mime : String) (data : Bytes) : Except AppError Unit :=
  if mime = "application/pdf" ∧ ¬ pdfMagic.isPrefixOf data then
    .error AppError.unsupportedMediaType
  else .ok ()

/-- `storage_prefix`. -/
def storagePrefix (documentId : Uuid) : Text :=
  "documents/".toList ++ documentId.text ++ ['/']

/-- `_ENQUEUE_FAILED_ERROR`. -/
def enqueueFailedError : String := "解析任務入列失敗,請重試"

/-- `_enqueue_stage`: the document as it is afterwards. -/
def enqueueStage (doc : DocumentRow) (stage : Stage) : Op DocumentRow := do
  if draws.enqueues then
    emit (.enqueue stage doc.id)
    pure doc
  else
    execute fun db => db.updateDocument doc.id .failed (some enqueueFailedError) (draws.now 3)
    pure { doc with
      status := .failed, error := some enqueueFailedError, updatedAt := draws.now 3 }

/-- `_restart_from_failed_stage`. -/
def restartFromFailedStage (doc : DocumentRow) : Op DocumentRow := do
  let failed ← query fun db => firstFailedStage db doc.id
  let stage := failed.getD .parse
  execute fun db => db.updateDocument doc.id stage.entryStatus none (draws.now 2)
  let doc := { doc with status := stage.entryStatus, error := none, updatedAt := draws.now 2 }
  enqueueStage draws doc stage

/-- `_reset_if_failed`. -/
def resetIfFailed (doc : DocumentRow) : Op DocumentRow :=
  if doc.status = .failed then restartFromFailedStage draws doc else pure doc

/-- `DEFAULT_SOURCE_NAME`. -/
def defaultSourceName : String := "我的上傳"

/-- `_resolve_source_id`. -/
def resolveSourceId (sourceId : Option Uuid) : Op Uuid :=
  match sourceId with
  | some id => do
    match ← query fun db => getOwnedSource db userId id with
    | some source => pure source.id
    | none => raise AppError.sourceNotFound
  | none => do
    match ← query fun db => getDefaultSource db userId with
    | some source => pure source.id
    | none =>
      let source : SourceRow :=
        { id := draws.sourceId, ownerId := userId, name := defaultSourceName,
          type := defaultSourceType, createdAt := draws.now 0, updatedAt := draws.now 0 }
      if ← tryInsert fun db => db.insertSource? source then pure source.id
      else
        match ← query fun db => getDefaultSource db userId with
        | some source => pure source.id
        | none => throw .integrityError

/-- `DocumentService.upload` from the point where the file is known to be new: the document and
whether it is a duplicate after all. -/
def storeNew (safeName : Text) (mime : String) (checksum : Text) (data : Bytes)
    (sourceId : Option Uuid) : Op (DocumentRow × Bool) := do
  let resolved ← resolveSourceId draws userId sourceId
  let id := draws.rowId
  let key := storagePrefix id ++ "original".toList ++ env.lower (pathSuffix safeName)
  if draws.stores then
    emit (.put key data)
    let doc : DocumentRow :=
      { id := id, sourceId := resolved, uploadedBy := userId, filename := safeName, mime := mime,
        sizeBytes := data.length, storageKey := key, checksum := checksum,
        createdAt := draws.now 1, updatedAt := draws.now 1 }
    if ← tryInsert fun db => db.insertDocument? doc then
      let doc ← enqueueStage draws doc .parse
      pure (doc, false)
    else
      emit (.deletePrefix (storagePrefix id))
      match ← query fun db => getByChecksum db userId checksum with
      | some duplicate =>
        let doc ← resetIfFailed draws duplicate
        pure (doc, true)
      | none => throw .integrityError
  else throw .storageError

/-- `DocumentService.upload`. -/
def upload (filename : Text) (contentType : Option Text) (data : Bytes)
    (sourceId : Option Uuid) : Op (DocumentRow × Bool) := do
  let safeName := (pathName (Scan.replace ['\\'] ['/'] filename)).take 255
  let mime ← ofExcept (canonicalMime env safeName contentType)
  let () ← ofExcept (checkMagic mime data)
  let checksum := env.sha256 data
  match ← query fun db => getByChecksum db userId checksum with
  | some existing =>
    let doc ← resetIfFailed draws existing
    pure (doc, true)
  | none => storeNew env draws userId safeName mime checksum data sourceId

/-! ## 4. Documents -/

/-- `DocumentService.get`. -/
def getDocument (id : Uuid) : Op DocumentRow := do
  match ← query fun db => getOwnedDocument db userId id with
  | some doc => pure doc
  | none => raise AppError.documentNotFound

/-- `DocumentService.retry`. -/
def retryDocument (id : Uuid) : Op DocumentRow := do
  let doc ← getDocument userId id
  if doc.status = .failed then restartFromFailedStage draws doc
  else raise AppError.documentNotRetryable

/-- `DocumentService.delete`.  A broker that does not take the message is only logged. -/
def deleteDocument (id : Uuid) : Op Unit := do
  let doc ← getDocument userId id
  execute fun db => db.deleteDocument doc.id
  if draws.enqueues then emit (.purge (storagePrefix doc.id)) else pure ()

/-! ## 5. A chat turn's first transaction -/

/-- `_TurnContext`, as `_prepare_turn` builds it. -/
structure TurnContext where
  userMessageId : Uuid
  assistantMessageId : Uuid
  history : List ChatMessage
  systemPrompt : Text
  params : ModelParams
  titleIsNone : Bool
  sourceIds : Option (List Uuid)
  deriving DecidableEq

/-- The loop of `_assert_sources_owned`. -/
def assertEachOwned : List Uuid → Op Unit
  | [] => pure ()
  | id :: ids => do
    match ← query fun db => getOwnedSource db userId id with
    | some _ => assertEachOwned ids
    | none => raise AppError.sourceNotFound

/-- `_assert_sources_owned`. -/
def assertSourcesOwned (sourceIds : Option (List Uuid)) : Op Unit :=
  assertEachOwned userId (sourceIds.getD [])

/-- A session that is closed without a commit: an error takes back what was written. -/
def transaction (m : Op α) : Op α := fun w =>
  match m w with
  | (.ok a, w') => (.ok a, w')
  | (.error e, w') => (.error e, { w' with db := w.db })

/-- `_prepare_turn`. -/
def prepareTurn (conversationId : Uuid) (content : Text) (clientMessageId : Option Uuid)
    (sourceIds : Option (List Uuid)) : Op TurnContext := do
  let committed ← transaction do
    match ← query fun db => getOwnedConversation db userId conversationId with
    | none => raise AppError.conversationNotFound
    | some conv =>
      assertSourcesOwned userId sourceIds
      let message : MessageRow :=
        { id := draws.rowId, conversationId := conversationId, role := .user,
          content := content, clientMessageId := clientMessageId, createdAt := draws.now 0 }
      if ← tryInsert fun db => db.insertMessage? message then
        let rows ← query fun db =>
          listRecent env.localOffset db conversationId env.historyLimit
        let context := rows.map fun m => (⟨m.role, m.content⟩ : ChatMessage)
        let params ← resolve env conv.modelAlias
        pure (message.id, context, params, conv.title.isNone)
      else raise AppError.duplicateMessage
  let (userMessageId, context, params, titleIsNone) := committed
  pure
    { userMessageId := userMessageId, assistantMessageId := draws.assistantMessageId,
      history := context, systemPrompt := env.systemPrompt, params := params,
      titleIsNone := titleIsNone, sourceIds := sourceIds }

/-! ## 6. Any operation -/

/-- A call of one of the services, with its arguments. -/
inductive Operation where
  | createConversation (title : Option Text) (modelAlias : Option String)
  | getConversation (id : Uuid)
  | listConversations (limit : Nat) (cursor : Option Text)
  | renameConversation (id : Uuid) (title : Text)
  | deleteConversation (id : Uuid)
  | listMessages (id : Uuid) (limit : Nat) (cursor : Option Text)
  | upload (filename : Text) (contentType : Option Text) (data : Bytes) (sourceId : Option Uuid)
  | getDocument (id : Uuid)
  | listDocuments (limit : Nat) (cursor : Option Text) (status : Option String)
  | retryDocument (id : Uuid)
  | deleteDocument (id : Uuid)
  | prepareTurn (conversationId : Uuid) (content : Text) (clientMessageId : Option Uuid)
      (sourceIds : Option (List Uuid))

/-- What a call returns. -/
inductive Reply where
  | done
  | conversation (row : ConversationRow)
  | conversations (rows : List ConversationRow) (nextCursor : Option Text)
  | messages (rows : List MessageRow) (citations : List (Uuid × List CitationRow))
      (nextCursor : Option Text)
  | uploaded (row : DocumentRow) (deduplicated : Bool)
  | document (row : DocumentRow)
  | documents (rows : List DocumentRow) (nextCursor : Option Text)
  | turn (context : TurnContext)

/-- The call itself. -/
def Operation.exec : Operation → Op Reply
  | .createConversation title modelAlias => do
    let row ← Services.createConversation env draws userId title modelAlias
    pure (.conversation row)
  | .getConversation id => do
    let row ← Services.getConversation userId id
    pure (.conversation row)
  | .listConversations limit cursor => do
    let page ← query fun db => Services.listConversations env.localOffset db userId limit cursor
    let (rows, nextCursor) ← ofExcept page
    pure (.conversations rows nextCursor)
  | .renameConversation id title => do
    let row ← Services.renameConversation draws userId id title
    pure (.conversation row)
  | .deleteConversation id => do
    Services.deleteConversation userId id
    pure .done
  | .listMessages id limit cursor => do
    let (rows, citations, nextCursor) ← Services.listMessages env userId id limit cursor
    pure (.messages rows citations nextCursor)
  | .upload filename contentType data sourceId => do
    let (row, deduplicated) ← Services.upload env draws userId filename contentType data sourceId
    pure (.uploaded row deduplicated)
  | .getDocument id => do
    let row ← Services.getDocument userId id
    pure (.document row)
  | .listDocuments limit cursor status => do
    let page ← query fun db => Services.listDocuments env.localOffset db userId limit cursor status
    let (rows, nextCursor) ← ofExcept page
    pure (.documents rows nextCursor)
  | .retryDocument id => do
    let row ← Services.retryDocument draws userId id
    pure (.document row)
  | .deleteDocument id => do
    Services.deleteDocument draws userId id
    pure .done
  | .prepareTurn conversationId content clientMessageId sourceIds => do
    let context ← Services.prepareTurn env draws userId conversationId content clientMessageId
      sourceIds
    pure (.turn context)

end AtlasKnowledge.Services
