/-
# The first transactions of several turns

`ChatOrchestrator._prepare_turn` and the transactions that save answers (`_persist_success`,
`_persist_error`, `_persist_cancelled`), statement by statement, in any interleaving.  At READ
COMMITTED a statement sees what is committed when it starts, and what its own transaction wrote;
a row's `created_at` is the start of the transaction that inserted it.

An insert waits for a transaction in progress that has inserted a conflicting row, so what is
inserted can be committed.
-/
import AtlasKnowledge.Lib.Interleave
import AtlasKnowledge.Lib.Transition
import AtlasKnowledge.Services.Operations

namespace AtlasKnowledge.Services

open Chat (ChatMessage ModelParams)
open Interleave Transition
open Pagination (Timestamp rowPosition)

/-! ## 1. Transactions -/

/-- What is committed, and the messages that transactions in progress have inserted. -/
structure Store where
  db : Db
  pending : List MessageRow

/-- The two rows hit a unique index of `messages`. -/
def Conflict (a b : MessageRow) : Prop :=
  a.id = b.id ∨ (a.clientMessageId.isSome ∧ a.conversationId = b.conversationId ∧
    a.clientMessageId = b.clientMessageId)

instance (a b : MessageRow) : Decidable (Conflict a b) :=
  inferInstanceAs (Decidable (_ ∨ _))

/-- What an insert comes to. -/
inductive Inserted where
  | waits
  | integrityError
  | done (store : Store)

/-- The insert of a message in a transaction. -/
def Store.insert (s : Store) (row : MessageRow) : Inserted :=
  if ∃ other ∈ s.pending, Conflict other row then .waits
  else
    match s.db.insertMessage? row with
    | none => .integrityError
    | some _ => .done { s with pending := row :: s.pending }

/-- The commit of a transaction that has inserted the message. -/
def Store.commit? (s : Store) (row : MessageRow) : Option Store :=
  (s.db.insertMessage? row).map fun db => { db := db, pending := s.pending.erase row }

/-- The rollback of a transaction that has inserted the message. -/
def Store.rollback (s : Store) (row : MessageRow) : Store :=
  { s with pending := s.pending.erase row }

/-! ## 2. The parties -/

/-- The arguments of `_prepare_turn`. -/
structure Turn where
  userId : Uuid
  conversationId : Uuid
  content : Text
  clientMessageId : Option Uuid := none
  sourceIds : Option (List Uuid) := none
  deriving DecidableEq

/-- Where `_prepare_turn` stands. -/
inductive TurnPc where
  | waiting
  | checking (now : Timestamp) (conv : ConversationRow) (sourceIds : List Uuid)
  | inserted (conv : ConversationRow) (row : MessageRow)
  | listed (conv : ConversationRow) (row : MessageRow) (rows : List MessageRow)
  | prepared (row : MessageRow) (rows : List MessageRow) (context : TurnContext)
  | raised (failure : Failure)
  deriving DecidableEq

/-- Where a transaction that saves an answer stands. -/
inductive SavingPc where
  | waiting
  | inserted (row : MessageRow)
  | committed
  | failed
  deriving DecidableEq

inductive Party where
  | turn (t : Turn) (pc : TurnPc)
  | saving (row : MessageRow) (pc : SavingPc)
  deriving DecidableEq

/-- What a step draws: the start of a transaction, an id, or nothing. -/
inductive Draw where
  | now (t : Timestamp)
  | id (id : Uuid)
  | go
  deriving DecidableEq

variable (env : Env)

/-- `resolve(conv.model_alias)`; `none` is the `KeyError` of a default that is not there. -/
def params (modelAlias : String) : Option ModelParams :=
  (env.aliases modelAlias).orElse fun _ => env.aliases env.defaultAlias

/-- `context` and the rest of the turn's context, once the transaction is committed. -/
def turnContext (t : Turn) (conv : ConversationRow) (row : MessageRow) (rows : List MessageRow)
    (params : ModelParams) (assistantMessageId : Uuid) : TurnContext where
  userMessageId := row.id
  assistantMessageId := assistantMessageId
  history := rows.map fun m => ⟨m.role, m.content⟩
  systemPrompt := env.systemPrompt
  params := params
  titleIsNone := conv.title.isNone
  sourceIds := t.sourceIds

/-- A statement of `_prepare_turn`. -/
def stepTurn (s : Store) (t : Turn) : TurnPc → Draw → Option (Store × TurnPc)
  | .waiting, .now now =>
    match getOwnedConversation s.db t.userId t.conversationId with
    | none => some (s, .raised (.app AppError.conversationNotFound))
    | some conv => some (s, .checking now conv (t.sourceIds.getD []))
  | .checking now conv (sourceId :: rest), .go =>
    match getOwnedSource s.db t.userId sourceId with
    | none => some (s, .raised (.app AppError.sourceNotFound))
    | some _ => some (s, .checking now conv rest)
  | .checking now conv [], .id id =>
    let row : MessageRow :=
      { id := id, conversationId := t.conversationId, role := .user, content := t.content,
        clientMessageId := t.clientMessageId, createdAt := now }
    match s.insert row with
    | .waits => none
    | .integrityError => some (s, .raised (.app AppError.duplicateMessage))
    | .done s' => some (s', .inserted conv row)
  | .inserted conv row, .go =>
    (s.db.insertMessage? row).map fun view =>
      (s, .listed conv row (listRecent env.localOffset view t.conversationId env.historyLimit))
  | .listed conv row rows, .id assistantMessageId =>
    match params env conv.modelAlias with
    | none => some (s.rollback row, .raised .keyError)
    | some params =>
      (s.commit? row).map fun s' =>
        (s', .prepared row rows (turnContext env t conv row rows params assistantMessageId))
  | _, _ => none

/-- A statement of a transaction that saves an answer, or of one that has no answer to save. -/
def stepSaving (s : Store) (row : MessageRow) : SavingPc → Draw → Option (Store × SavingPc)
  | .waiting, .now now =>
    let row := { row with createdAt := now }
    match s.insert row with
    | .waits => none
    | .integrityError => some (s, .failed)
    | .done s' => some (s', .inserted row)
  | .inserted row, .go => (s.commit? row).map fun s' => (s', .committed)
  | _, _ => none

def stepParty (s : Store) : Party → Draw → Option (Store × Party)
  | .turn t pc, d => (stepTurn env s t pc d).map fun r => (r.1, .turn t r.2)
  | .saving row pc, d => (stepSaving s row pc d).map fun r => (r.1, .saving row r.2)

/-- The conversations with their transactions. -/
abbrev Turns := Par Store Party

/-- A label says which party moves and what it draws. -/
def Turns.step (s : Turns) (l : Nat × Draw) : Option Turns := s.act (stepParty env) l.1 l.2

/-- A transaction that is to come. -/
inductive Upcoming where
  | turn (t : Turn)
  | saving (row : MessageRow)
  deriving DecidableEq

def Upcoming.party : Upcoming → Party
  | .turn t => .turn t .waiting
  | .saving row => .saving row .waiting

def Db.turns (db : Db) (upcoming : List Upcoming) : Turns :=
  ⟨⟨db, []⟩, upcoming.map Upcoming.party⟩

end AtlasKnowledge.Services
