/-
# Messages, citations and usage

The tables a chat turn writes (`Message`, `MessageCitation` and `ModelUsageLog` of
`infrastructure/db/models.py`), the transactions that write them, and the data a turn carries:
the provider's events (`domain/ports/llm.py`), the retrieved chunks and the events that
`stream_reply` yields.

A transaction is what it inserts, all of it or nothing; `messages.id` is a primary key, so a
transaction with a message whose id is taken does not commit.
-/
import AtlasKnowledge.Domain.Document
import Mathlib.Data.List.Nodup

namespace AtlasKnowledge.Chat

/-! ## 1. The provider -/

/-- The role of a message. -/
inductive Role where
  | system | user | assistant | tool
  deriving DecidableEq, Repr

/-- `ChatMessage` of `domain/ports/llm.py`. -/
structure ChatMessage where
  role : Role
  content : Text
  deriving DecidableEq, Repr

/-- `ModelParams`; the temperature is handed on unread. -/
structure ModelParams where
  model : String
  maxTokens : Option Int := none
  deriving DecidableEq, Repr

/-- Why a stream stops. -/
inductive StopReason where
  | endTurn | toolUse | maxTokens
  deriving DecidableEq, Repr

/-- `StreamEvent`.  The consumer ignores a tool call and every type it does not know; `τ` is what a
delta holds, a text or any Python string. -/
inductive StreamEvent (τ : Type) where
  | textDelta (text : τ)
  | other
  | usage (inputTokens outputTokens : Int)
  | stop (stopReason : StopReason)
  | error (code message : String)
  deriving DecidableEq, Repr

/-- `_FINISH_REASON.get(stop_reason, "stop")`. -/
def StopReason.finishReason : StopReason → String
  | .endTurn => "stop"
  | .maxTokens => "length"
  | .toolUse => "stop"

/-! ## 2. Retrieval -/

/-- `RetrievedChunk`; of its meta only `heading_path` is read. -/
structure RetrievedChunk where
  chunkId : Id
  documentId : Id
  filename : Text
  text : Text
  score : Rat
  info : ChunkMeta := {}
  deriving DecidableEq, Repr

/-- What `RetrievalService.retrieve` returns or raises. -/
inductive Retrieval where
  | chunks (chunks : List RetrievedChunk)
  | embeddingError (code message : String)
  | otherException
  deriving DecidableEq, Repr

/-! ## 3. Rows -/

/-- The key `rag` of `content_meta`. -/
structure RagMeta where
  sourceIds : List Id
  topN : Nat
  deriving DecidableEq, Repr

/-- `messages.content_meta`.  A key that is absent is `false` or `none`. -/
structure ContentMeta where
  isPartial : Bool := false
  errorCode : Option String := none
  rag : Option RagMeta := none
  deriving DecidableEq, Repr

/-- A message, with the columns that a turn writes. -/
structure MessageRow where
  id : Id
  conversationId : Id
  role : Role
  content : Text
  contentMeta : ContentMeta := {}
  provider : Option String := none
  model : Option String := none
  tokensIn : Option Int := none
  tokensOut : Option Int := none
  latencyMs : Option Int := none
  deriving DecidableEq, Repr

/-- A stored citation. -/
structure CitationRow where
  messageId : Id
  chunkId : Id
  documentId : Id
  filename : Text
  snippet : Text
  score : Rat
  rank : Nat
  deriving DecidableEq, Repr

/-- The status of a usage row. -/
inductive UsageStatus where
  | ok | error
  deriving DecidableEq, Repr

/-- A row of the usage log. -/
structure UsageRow where
  userId : Id
  conversationId : Id
  messageId : Id
  provider : String
  model : String
  tokensIn : Option Int
  tokensOut : Option Int
  latencyMs : Option Int
  status : UsageStatus
  errorCode : Option String := none
  deriving DecidableEq, Repr

/-- `messages`, with its primary key. -/
structure MessageTable where
  rows : List MessageRow
  pk : (rows.map MessageRow.id).Nodup

/-- No messages. -/
def MessageTable.empty : MessageTable := ⟨[], List.nodup_nil⟩

/-- The insert of a message: `none` is an `IntegrityError`. -/
def MessageTable.insert? (t : MessageTable) (row : MessageRow) : Option MessageTable :=
  if h : row.id ∉ t.rows.map MessageRow.id then
    some
      { rows := t.rows ++ [row]
        pk := by
          rw [List.map_append, List.nodup_append]
          refine ⟨t.pk, by simp, ?_⟩
          intro a ha b hb heq
          obtain rfl : b = row.id := by simpa using hb
          exact h (heq ▸ ha) }
  else none

/-- The tables that a turn writes. -/
structure Db where
  messages : MessageTable
  citations : List CitationRow
  usage : List UsageRow

/-! ## 4. Transactions -/

/-- What one of the turn's transactions inserts. -/
structure Txn where
  message : Option MessageRow
  citations : List CitationRow
  usage : UsageRow
  deriving DecidableEq, Repr

/-- The commit of a transaction, or `none` if its message's id is taken. -/
def Db.commit? (db : Db) (txn : Txn) : Option Db :=
  match txn.message with
  | none => some { db with usage := db.usage ++ [txn.usage] }
  | some row =>
    (db.messages.insert? row).map fun messages =>
      { messages := messages, citations := db.citations ++ txn.citations,
        usage := db.usage ++ [txn.usage] }

/-! ## 5. Events -/

/-- An item of the `citations` event. -/
structure CitationItem where
  rank : Nat
  chunkId : Id
  documentId : Id
  filename : Text
  snippet : Text
  score : Rat
  deriving DecidableEq, Repr

/-- The application events that `stream_reply` yields. -/
inductive Event where
  | messageStart (userMessageId assistantMessageId : Id)
  | citations (items : List CitationItem)
  | delta (text : Text)
  | done (messageId : Id) (finishReason : String) (tokensIn tokensOut : Option Int)
      (latencyMs : Int)
  | error (code message traceId : String)
  deriving DecidableEq, Repr

/-- The texts of the emitted deltas. -/
def deltasOf (events : List Event) : List Text :=
  events.filterMap fun e => match e with
    | .delta text => some text
    | _ => none

/-! ## 6. What a commit leaves -/

variable {db db' : Db} {t t' : MessageTable} {txn : Txn} {row r : MessageRow} {id : Id}

/-- Two messages with one id are one message. -/
theorem eq_of_message_id (hr : r ∈ t.rows) (hrow : row ∈ t.rows) (hid : r.id = row.id) : r = row :=
  List.inj_on_of_nodup_map t.pk hr hrow hid

theorem insert_message_rows (h : t.insert? row = some t') : t'.rows = t.rows ++ [row] := by
  unfold MessageTable.insert? at h
  split at h
  · obtain rfl := Option.some.inj h
    rfl
  · exact nomatch h

theorem insert_message_eq_none (h : t.insert? row = none) : ∃ r ∈ t.rows, r.id = row.id := by
  unfold MessageTable.insert? at h
  split at h
  · exact nomatch h
  · rename_i hmem
    exact List.mem_map.mp (not_not.mp hmem)

/-- **What a commit does**: it adds the transaction's rows. -/
theorem commit_rows (h : db.commit? txn = some db') :
    db'.messages.rows = db.messages.rows ++ txn.message.toList ∧
      db'.usage = db.usage ++ [txn.usage] ∧
      db'.citations = db.citations ++ (if txn.message.isSome then txn.citations else []) := by
  unfold Db.commit? at h
  cases hmessage : txn.message with
  | none =>
    rw [hmessage] at h
    obtain rfl := Option.some.inj h
    exact ⟨by simp, rfl, by simp⟩
  | some row =>
    rw [hmessage] at h
    obtain ⟨messages, hinsert, rfl⟩ := Option.map_eq_some_iff.mp h
    exact ⟨insert_message_rows hinsert, rfl, by simp⟩

/-- A transaction whose message's id is taken leaves a message with that id. -/
theorem commit_eq_none (h : db.commit? txn = none) :
    ∃ row ∈ txn.message, ∃ r ∈ db.messages.rows, r.id = row.id := by
  unfold Db.commit? at h
  cases hmessage : txn.message with
  | none =>
    rw [hmessage] at h
    exact nomatch h
  | some row =>
    rw [hmessage] at h
    exact ⟨row, rfl, insert_message_eq_none (Option.map_eq_none_iff.mp h)⟩

end AtlasKnowledge.Chat
