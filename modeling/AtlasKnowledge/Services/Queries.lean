/-
# What the services read

The `SELECT`s of the repositories (`infrastructure/db/repositories/`) and the three listings of
the services, which page through them.
-/
import AtlasKnowledge.Services.Db

namespace AtlasKnowledge.Services

open Pagination (Timestamp listing rowPosition)
open Pipeline (Stage DocStatus stageOrder)

/-! ## 1. One row -/

/-- `ConversationRepository.get_owned`. -/
def getOwnedConversation (db : Db) (userId id : Uuid) : Option ConversationRow :=
  db.conversations.selectOne fun c => c.userId = userId && c.id = id

/-- `DocumentRepository.get_owned`. -/
def getOwnedDocument (db : Db) (userId id : Uuid) : Option DocumentRow :=
  db.documents.selectOne fun d => d.uploadedBy = userId && d.id = id

/-- `DocumentRepository.get_by_checksum`. -/
def getByChecksum (db : Db) (userId : Uuid) (checksum : Text) : Option DocumentRow :=
  db.documents.selectOne fun d => d.uploadedBy = userId && d.checksum = checksum

/-- `KnowledgeSourceRepository.get_owned`. -/
def getOwnedSource (db : Db) (ownerId id : Uuid) : Option SourceRow :=
  db.sources.selectOne fun s => s.ownerId = ownerId && s.id = id

/-- `KnowledgeSourceRepository.get_default`. -/
def getDefaultSource (db : Db) (ownerId : Uuid) : Option SourceRow :=
  db.sources.selectOne fun s => s.ownerId = ownerId && s.type = defaultSourceType

/-- `IngestionJobRepository.first_failed_stage`. -/
def firstFailedStage (db : Db) (documentId : Uuid) : Option Stage :=
  let failed := db.jobs.select fun j => j.documentId = documentId && j.status = .failed
  stageOrder.find? fun stage => stage ∈ failed.map JobRow.stage

/-! ## 2. Lists of rows -/

variable (localOffset : Datetime → Int)

/-- `_msg_key`. -/
def messageKey (m : MessageRow) : Timestamp × Uuid := (m.createdAt, m.id)

/-- `_conv_key`. -/
def conversationKey (c : ConversationRow) : Timestamp × Uuid := (c.updatedAt, c.id)

/-- `_doc_key`. -/
def documentKey (d : DocumentRow) : Timestamp × Uuid := (d.createdAt, d.id)

/-- `MessageRepository.list_recent`: the last `limit` messages, the oldest of them first. -/
def listRecent (db : Db) (conversationId : Uuid) (limit : Nat) : List MessageRow :=
  let rows := db.messages.select fun m => m.conversationId = conversationId
  ((Keyset.descending (rowPosition localOffset messageKey) rows).take limit).reverse

/-- `grouped.setdefault(citation.message_id, []).append(citation)`. -/
def appendTo (citation : CitationRow) :
    List (Uuid × List CitationRow) → List (Uuid × List CitationRow)
  | [] => [(citation.messageId, [citation])]
  | (id, group) :: rest =>
    if id = citation.messageId then (id, group ++ [citation]) :: rest
    else (id, group) :: appendTo citation rest

/-- `MessageCitationRepository.list_for_messages`. -/
def listForMessages (db : Db) (messageIds : List Uuid) : List (Uuid × List CitationRow) :=
  if messageIds = [] then []
  else
    let rows := db.citations.select fun c => c.messageId ∈ messageIds
    let ordered := rows.insertionSort fun a b =>
      a.messageId < b.messageId ∨ (a.messageId = b.messageId ∧ a.rank ≤ b.rank)
    ordered.foldl (fun grouped c => appendTo c grouped) []

/-! ## 3. Listings -/

/-- The text of a status in its column. -/
def statusText : DocStatus → String
  | .pending => "pending"
  | .parsing => "parsing"
  | .chunking => "chunking"
  | .embedding => "embedding"
  | .ready => "ready"
  | .failed => "failed"

/-- The rows of `ConversationRepository.list_page`. -/
def conversationsOf (db : Db) (userId : Uuid) : List ConversationRow :=
  db.conversations.select fun c => c.userId = userId

/-- The rows of `MessageRepository.list_page`. -/
def messagesOf (db : Db) (conversationId : Uuid) : List MessageRow :=
  db.messages.select fun m => m.conversationId = conversationId

/-- The rows of `DocumentRepository.list_page`. -/
def documentsOf (db : Db) (userId : Uuid) (status : Option String) : List DocumentRow :=
  db.documents.select fun d => d.uploadedBy = userId && status.all fun s => statusText d.status = s

/-- `ConversationService.list_conversations`. -/
def listConversations (db : Db) (userId : Uuid) (limit : Nat) (cursor : Option Text) :
    Except AppError (List ConversationRow × Option Text) :=
  listing localOffset conversationKey limit cursor (conversationsOf db userId)

/-- The page of `ConversationService.list_messages`, once the conversation is known to be the
user's. -/
def messagePage (db : Db) (conversationId : Uuid) (limit : Nat) (cursor : Option Text) :
    Except AppError (List MessageRow × Option Text) :=
  listing localOffset messageKey limit cursor (messagesOf db conversationId)

/-- `DocumentService.list_documents`. -/
def listDocuments (db : Db) (userId : Uuid) (limit : Nat) (cursor : Option Text)
    (status : Option String) : Except AppError (List DocumentRow × Option Text) :=
  listing localOffset documentKey limit cursor (documentsOf db userId status)

end AtlasKnowledge.Services
