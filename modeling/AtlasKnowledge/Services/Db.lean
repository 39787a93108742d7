/-
# The tables behind the services

The rows that the conversation and document services read and write
(`infrastructure/db/models.py`), with the primary key of each table and the foreign keys between
them, and the statements that change them.  A delete takes along what refers to the row, as
`ON DELETE CASCADE` does.

Users and chunks are left out: no service reads them.
-/
import AtlasKnowledge.Chat.Data
import AtlasKnowledge.Lib.Table
import AtlasKnowledge.Pagination.Cursor
import AtlasKnowledge.Pipeline.Data

namespace AtlasKnowledge.Services

open Pagination (Timestamp)
open Pipeline (Stage DocStatus JobStatus)
open Chat (Role)

/-! ## 1. Rows -/

/-- `Conversation`. -/
structure ConversationRow where
  id : Uuid
  userId : Uuid
  title : Option Text := none
  channel : String := "web"
  modelAlias : String
  createdAt : Timestamp
  updatedAt : Timestamp
  deriving DecidableEq

/-- `Message`; `content_meta` is JSON that no service looks into. -/
structure MessageRow where
  id : Uuid
  conversationId : Uuid
  role : Role
  content : Text
  contentMeta : String := "\x7b\x7d"
  clientMessageId : Option Uuid := none
  provider : Option String := none
  model : Option String := none
  tokensIn : Option Int := none
  tokensOut : Option Int := none
  latencyMs : Option Int := none
  createdAt : Timestamp
  deriving DecidableEq

/-- `MessageCitation`. -/
structure CitationRow where
  id : Uuid
  messageId : Uuid
  chunkId : Option Uuid
  documentId : Option Uuid
  filename : Text
  snippet : Text
  score : Rat
  rank : Int
  createdAt : Timestamp
  deriving DecidableEq

/-- `KnowledgeSource`. -/
structure SourceRow where
  id : Uuid
  ownerId : Uuid
  name : String
  type : String
  config : String := "\x7b\x7d"
  enabled : Bool := true
  createdAt : Timestamp
  updatedAt : Timestamp
  deriving DecidableEq

/-- `Document`. -/
structure DocumentRow where
  id : Uuid
  sourceId : Uuid
  uploadedBy : Uuid
  filename : Text
  mime : String
  sizeBytes : Nat
  storageKey : Text
  checksum : Text
  status : DocStatus := .pending
  error : Option String := none
  info : String := "\x7b\x7d"
  createdAt : Timestamp
  updatedAt : Timestamp
  deriving DecidableEq

/-- `IngestionJob`. -/
structure JobRow where
  id : Uuid
  documentId : Uuid
  stage : Stage
  status : JobStatus
  attempts : Nat := 0
  error : Option String := none
  startedAt : Option Timestamp := none
  finishedAt : Option Timestamp := none
  createdAt : Timestamp
  deriving DecidableEq

/-! ## 2. The database -/

/-- The tables that the services share. -/
structure Db where
  conversations : Table ConversationRow ConversationRow.id
  messages : Table MessageRow MessageRow.id
  citations : Table CitationRow CitationRow.id
  sources : Table SourceRow SourceRow.id
  documents : Table DocumentRow DocumentRow.id
  jobs : Table JobRow JobRow.id
  messages_fk : ∀ m ∈ messages.rows, ∃ c ∈ conversations.rows, c.id = m.conversationId
  citations_fk : ∀ c ∈ citations.rows, ∃ m ∈ messages.rows, m.id = c.messageId
  jobs_fk : ∀ j ∈ jobs.rows, ∃ d ∈ documents.rows, d.id = j.documentId

/-- No rows. -/
def Db.empty : Db where
  conversations := .empty
  messages := .empty
  citations := .empty
  sources := .empty
  documents := .empty
  jobs := .empty
  messages_fk _ h := absurd h List.not_mem_nil
  citations_fk _ h := absurd h List.not_mem_nil
  jobs_fk _ h := absurd h List.not_mem_nil

/-- No row of the database has this primary key. -/
def Db.Unused (db : Db) (id : Uuid) : Prop :=
  (∀ r ∈ db.conversations.rows, r.id ≠ id) ∧ (∀ r ∈ db.messages.rows, r.id ≠ id) ∧
    (∀ r ∈ db.citations.rows, r.id ≠ id) ∧ (∀ r ∈ db.sources.rows, r.id ≠ id) ∧
    (∀ r ∈ db.documents.rows, r.id ≠ id) ∧ ∀ r ∈ db.jobs.rows, r.id ≠ id

variable (db : Db)

/-! ## 3. Inserts

`none` is an `IntegrityError`: a primary key or another unique index is hit, or a row that the
new one refers to is missing. -/

def Db.insertConversation? (row : ConversationRow) : Option Db :=
  match h : db.conversations.insert? row with
  | none => none
  | some conversations =>
    some
      { db with
        conversations := conversations
        messages_fk := by
          intro m hm
          obtain ⟨c, hc, hid⟩ := db.messages_fk m hm
          exact ⟨c, (Table.mem_insert h).mpr (.inr hc), hid⟩ }

/-- With `ux_messages_client_id`. -/
def Db.insertMessage? (row : MessageRow) : Option Db :=
  if hfk : ∃ c ∈ db.conversations.rows, c.id = row.conversationId then
    if row.clientMessageId.isSome ∧ ∃ m ∈ db.messages.rows,
        m.conversationId = row.conversationId ∧ m.clientMessageId = row.clientMessageId then none
    else
      match h : db.messages.insert? row with
      | none => none
      | some messages =>
        some
          { db with
            messages := messages
            messages_fk := by
              intro m hm
              rcases (Table.mem_insert h).mp hm with rfl | hold
              · exact hfk
              · exact db.messages_fk m hold
            citations_fk := by
              intro c hc
              obtain ⟨m, hm, hid⟩ := db.citations_fk c hc
              exact ⟨m, (Table.mem_insert h).mpr (.inr hm), hid⟩ }
  else none

/-- `DEFAULT_SOURCE_TYPE`. -/
def defaultSourceType : String := "upload"

/-- With `ux_sources_owner_default`. -/
def Db.insertSource? (row : SourceRow) : Option Db :=
  if row.type = defaultSourceType ∧
      ∃ s ∈ db.sources.rows, s.ownerId = row.ownerId ∧ s.type = defaultSourceType then none
  else (db.sources.insert? row).map fun sources => { db with sources := sources }

/-- With `ux_documents_owner_checksum`. -/
def Db.insertDocument? (row : DocumentRow) : Option Db :=
  if ∃ d ∈ db.documents.rows, d.uploadedBy = row.uploadedBy ∧ d.checksum = row.checksum then none
  else
    match h : db.documents.insert? row with
    | none => none
    | some documents =>
      some
        { db with
          documents := documents
          jobs_fk := by
            intro j hj
            obtain ⟨d, hd, hid⟩ := db.jobs_fk j hj
            exact ⟨d, (Table.mem_insert h).mpr (.inr hd), hid⟩ }

/-! ## 4. Updates and deletes -/

/-- `UPDATE conversations ... WHERE id = id`, of the title and `updated_at`. -/
def Db.updateConversation (id : Uuid) (title : Option Text) (updatedAt : Timestamp) : Db :=
  { db with
    conversations := db.conversations.update (fun c => c.id = id)
      (fun c => { c with title := title, updatedAt := updatedAt }) (fun _ => rfl)
    messages_fk := by
      intro m hm
      obtain ⟨c, hc, hid⟩ := db.messages_fk m hm
      refine ⟨_, List.mem_map_of_mem hc, ?_⟩
      split <;> exact hid }

/-- `UPDATE documents ... WHERE id = id`, of the status, the error and `updated_at`. -/
def Db.updateDocument (id : Uuid) (status : DocStatus) (error : Option String)
    (updatedAt : Timestamp) : Db :=
  { db with
    documents := db.documents.update (fun d => d.id = id)
      (fun d => { d with status := status, error := error, updatedAt := updatedAt }) (fun _ => rfl)
    jobs_fk := by
      intro j hj
      obtain ⟨d, hd, hid⟩ := db.jobs_fk j hj
      refine ⟨_, List.mem_map_of_mem hd, ?_⟩
      split <;> exact hid }

/-- The message belongs to the conversation. -/
def Db.isOf (id : Uuid) (messageId : Uuid) : Bool :=
  db.messages.rows.any fun m => m.id = messageId ∧ m.conversationId = id

/-- `DELETE FROM conversations WHERE id = id`, with the messages and their citations. -/
def Db.deleteConversation (id : Uuid) : Db :=
  { db with
    conversations := db.conversations.delete fun c => c.id = id
    messages := db.messages.delete fun m => m.conversationId = id
    citations := db.citations.delete fun c => db.isOf id c.messageId
    messages_fk := by
      intro m hm
      obtain ⟨hmem, hne⟩ := List.mem_filter.mp hm
      obtain ⟨c, hc, hid⟩ := db.messages_fk m hmem
      exact ⟨c, List.mem_filter.mpr ⟨hc, by simpa [hid] using hne⟩, hid⟩
    citations_fk := by
      intro c hc
      obtain ⟨hmem, hne⟩ := List.mem_filter.mp hc
      obtain ⟨m, hm, hid⟩ := db.citations_fk c hmem
      refine ⟨m, List.mem_filter.mpr ⟨hm, ?_⟩, hid⟩
      by_contra hof
      have hdel : db.isOf id c.messageId = true :=
        List.any_eq_true.mpr ⟨m, hm, by simpa [hid] using hof⟩
      simp [hdel] at hne }

/-- `DELETE FROM documents WHERE id = id`, with the jobs. -/
def Db.deleteDocument (id : Uuid) : Db :=
  { db with
    documents := db.documents.delete fun d => d.id = id
    jobs := db.jobs.delete fun j => j.documentId = id
    jobs_fk := by
      intro j hj
      obtain ⟨hmem, hne⟩ := List.mem_filter.mp hj
      obtain ⟨d, hd, hid⟩ := db.jobs_fk j hmem
      exact ⟨d, List.mem_filter.mpr ⟨hd, by simpa [hid] using hne⟩, hid⟩ }

end AtlasKnowledge.Services
