/-
# One turn of `stream_reply`, from suspension point to suspension point

`ChatOrchestrator.stream_reply` behind `_prepare_turn`, as a machine: `Pc` names the places at
which the generator is suspended, the yields and the awaits, with the locals that are alive
there.  What happens at such a place is a `Choice`: the consumer asks for the next event, closes
the generator or cancels the task, the retrieval or the provider answers, a transaction commits
or fails.

The handlers of the stream's `try` block run from the places inside it (`Pc.inTry`).  A
transaction that is cut off, by a cancellation or by a lost connection, is left to the database,
which settles it at any later time; a saving that was moved to the background runs at any later
time too.
-/
import AtlasKnowledge.Chat.Prompts

namespace AtlasKnowledge.Chat

/-! ## 1. The turn -/

/-- What the orchestrator is built with. -/
structure Config where
  chatSystemPrompt : Text
  ragContextCharBudget : Int
  llmName : String

/-- `AuthContext`. -/
structure AuthContext where
  userId : Id
  traceId : String
  deriving DecidableEq, Repr

/-- What `_prepare_turn` returns. -/
structure Prepared where
  userMessageId : Id
  assistantMessageId : Id
  history : List ChatMessage
  systemPrompt : Text
  params : ModelParams
  titleIsNone : Bool
  sourceIds : Option (List Id)
  deriving DecidableEq, Repr

/-- `_TurnContext`. -/
structure TurnContext extends Prepared where
  citations : List RetrievedChunk := []
  deriving DecidableEq, Repr

/-- `_TurnContext.prompt`. -/
def TurnContext.prompt (turn : TurnContext) : List ChatMessage :=
  ⟨.system, turn.systemPrompt⟩ :: turn.history

/-- `_TurnContext.content_meta`. -/
def TurnContext.contentMeta (turn : TurnContext) (extra : ContentMeta) : ContentMeta :=
  { extra with rag := turn.sourceIds.map fun ids => ⟨ids, turn.citations.length⟩ }

/-- `_RETRIEVAL_FAILED_MESSAGE`. -/
def retrievalFailedMessage : String := "知識庫檢索暫時無法使用,請稍後再試"

/-- `_PERSIST_FAILED_MESSAGE`. -/
def persistFailedMessage : String := "伺服器暫時發生錯誤,回覆未能儲存,請稍後再試"

/-- `SNIPPET_MAX_CHARS`. -/
def snippetMaxChars : Nat := 200

/-- `_citation_items`. -/
def citationItems (chunks : List RetrievedChunk) : List CitationItem :=
  (chunks.zipIdx 1).map fun (chunk, rank) =>
    { rank := rank, chunkId := chunk.chunkId, documentId := chunk.documentId,
      filename := chunk.filename, snippet := chunk.text.take snippetMaxChars,
      score := chunk.score }

/-- The locals of the stream loop. -/
structure Frame where
  buffer : List Text := []
  tokensIn : Option Int := none
  tokensOut : Option Int := none
  stopReason : StopReason := .endTurn
  deriving DecidableEq, Repr

/-- How the generator has ended. -/
inductive Ending where
  | returned | generatorExit | cancelled | raised
  deriving DecidableEq, Repr

/-- Where the generator is suspended. -/
inductive Pc where
  /-- `yield` of message_start. -/
  | yieldStart
  /-- `await self._retrieve`. -/
  | retrieving
  /-- `await self._persist_error_guarded`, after a failed retrieval. -/
  | saveRetrievalError (code message : String)
  /-- `yield` of citations. -/
  | yieldCitations
  /-- The next event of `self._llm.chat`. -/
  | streaming (f : Frame)
  /-- `yield` of delta. -/
  | yieldDelta (f : Frame)
  /-- `await self._persist_error`, on a StreamError. -/
  | saveStreamError (f : Frame) (code message : String)
  /-- `yield` of error, on a StreamError. -/
  | yieldStreamError (f : Frame)
  /-- `await self._persist_cancelled`, on a GeneratorExit. -/
  | closing (f : Frame)
  /-- `await self._persist_success`. -/
  | saveSuccess (f : Frame) (latencyMs : Int)
  /-- `yield` of a last event outside the `try` block. -/
  | yieldLast
  | ended (how : Ending)
  deriving DecidableEq, Repr

/-- A turn in progress, with the background tasks it has spawned (their buffers), the
transactions that were cut off, and the conversations handed to the title task. -/
structure Turn where
  ctx : AuthContext
  conversationId : Id
  turn : TurnContext
  pc : Pc
  emitted : List Event
  background : List (List Text) := []
  unsettled : List Txn := []
  titles : List Id := []
  deriving DecidableEq, Repr

/-- The turn after `_prepare_turn`, suspended at its first `yield`. -/
def Turn.start (ctx : AuthContext) (conversationId : Id) (prepared : Prepared) : Turn where
  ctx := ctx
  conversationId := conversationId
  turn := { prepared with }
  pc := .yieldStart
  emitted := [.messageStart prepared.userMessageId prepared.assistantMessageId]

/-- `turn.assistant_message_id`. -/
def Turn.id (t : Turn) : Id := t.turn.assistantMessageId

/-- An event is yielded at `pc`. -/
def Turn.emit (t : Turn) (event : Event) (pc : Pc) : Turn :=
  { t with emitted := t.emitted ++ [event], pc := pc }

/-! ## 2. The transactions -/

/-- The rows of `_add_citations`. -/
def TurnContext.citationRows (turn : TurnContext) : List CitationRow :=
  (turn.citations.zipIdx 1).map fun (chunk, rank) =>
    { messageId := turn.assistantMessageId, chunkId := chunk.chunkId,
      documentId := chunk.documentId, filename := chunk.filename,
      snippet := chunk.text.take snippetMaxChars, score := chunk.score, rank := rank }

/-- `_usage_log`. -/
def Turn.usageLog (cfg : Config) (t : Turn) (tokensIn tokensOut latencyMs : Option Int)
    (status : UsageStatus) (errorCode : Option String) : UsageRow where
  userId := t.ctx.userId
  conversationId := t.conversationId
  messageId := t.id
  provider := cfg.llmName
  model := t.turn.params.model
  tokensIn := tokensIn
  tokensOut := tokensOut
  latencyMs := latencyMs
  status := status
  errorCode := errorCode

/-- `_assistant_partial`. -/
def Turn.assistantPartial (cfg : Config) (t : Turn) (buffer : List Text) (extra : ContentMeta) :
    MessageRow where
  id := t.id
  conversationId := t.conversationId
  role := .assistant
  content := buffer.flatten
  contentMeta := t.turn.contentMeta extra
  provider := some cfg.llmName
  model := some t.turn.params.model

/-- `_persist_success`. -/
def Turn.successTxn (cfg : Config) (t : Turn) (f : Frame) (latencyMs : Int) : Txn where
  message := some
    { id := t.id, conversationId := t.conversationId, role := .assistant,
      content := f.buffer.flatten, contentMeta := t.turn.contentMeta {},
      provider := some cfg.llmName, model := some t.turn.params.model,
      tokensIn := f.tokensIn, tokensOut := f.tokensOut, latencyMs := some latencyMs }
  citations := t.turn.citationRows
  usage := t.usageLog cfg f.tokensIn f.tokensOut (some latencyMs) .ok none

/-- `_persist_error`: without a buffer there is no message, and then no citations. -/
def Turn.errorTxn (cfg : Config) (t : Turn) (buffer : List Text) (errorCode : String) : Txn where
  message :=
    if buffer = [] then none
    else some (t.assistantPartial cfg buffer { isPartial := true, errorCode := some errorCode })
  citations := if buffer = [] then [] else t.turn.citationRows
  usage := t.usageLog cfg none none none .error (some errorCode)

/-- `_persist_cancelled`, with a buffer that is not empty. -/
def Turn.cancelledTxn (cfg : Config) (t : Turn) (buffer : List Text) : Txn where
  message := some (t.assistantPartial cfg buffer { isPartial := true })
  citations := t.turn.citationRows
  usage := t.usageLog cfg none none none .ok none

/-- The transaction that the generator awaits. -/
def Turn.saving (cfg : Config) (t : Turn) : Option Txn :=
  match t.pc with
  | .saveRetrievalError code _ => some (t.errorTxn cfg [] code)
  | .saveStreamError f code _ => some (t.errorTxn cfg f.buffer code)
  | .closing f => some (t.cancelledTxn cfg f.buffer)
  | .saveSuccess f latencyMs => some (t.successTxn cfg f latencyMs)
  | _ => none

/-! ## 3. The steps -/

/-- What the provider's iterator does when it is asked for the next event. -/
inductive ProviderStep where
  | event (ev : StreamEvent Text)
  | finished
  | raised
  deriving DecidableEq, Repr

/-- What the environment decides at a step of the turn. -/
inductive Choice where
  /-- The consumer asks for the next event. -/
  | resume
  /-- `aclose`: a GeneratorExit. -/
  | close
  /-- A CancelledError. -/
  | cancel
  | retrieved (r : Retrieval)
  | provider (step : ProviderStep) (latencyMs : Int)
  /-- The awaited transaction comes to its commit. -/
  | commit
  /-- The awaited transaction raises; the commit may be `lost` on the way. -/
  | fail (lost : Bool)
  | background (k : Nat)
  | backgroundFail (k : Nat) (lost : Bool)
  /-- The database settles a transaction that was cut off. -/
  | settle (k : Nat) (commits : Bool)
  deriving DecidableEq, Repr

/-- The locals, at a place inside the stream's `try` block. -/
def Pc.inTry : Pc → Option Frame
  | .streaming f => some f
  | .yieldDelta f => some f
  | .saveStreamError f _ _ => some f
  | .yieldStreamError f => some f
  | _ => none

/-- The turn waits for its consumer. -/
def Pc.isYield : Pc → Bool
  | .yieldStart => true
  | .yieldCitations => true
  | .yieldDelta _ => true
  | .yieldStreamError _ => true
  | .yieldLast => true
  | _ => false

/-- The turn is over. -/
def Pc.isEnded : Pc → Bool
  | .ended _ => true
  | _ => false

/-- The consumer asks for the next event. -/
def Turn.resume (t : Turn) : Option Turn :=
  match t.pc with
  | .yieldStart =>
    some { t with pc := if t.turn.sourceIds.isSome then .retrieving else .streaming {} }
  | .yieldCitations => some { t with pc := .streaming {} }
  | .yieldDelta f => some { t with pc := .streaming f }
  | .yieldStreamError _ => some { t with pc := .ended .returned }
  | .yieldLast => some { t with pc := .ended .returned }
  | _ => none

/-- `except GeneratorExit`: the partial is saved before the generator ends. -/
def Turn.close (t : Turn) : Option Turn :=
  if t.pc.isYield then
    match t.pc.inTry with
    | some f =>
      some { t with pc := if f.buffer = [] then .ended .generatorExit else .closing f }
    | none => some { t with pc := .ended .generatorExit }
  else none

/-- `except asyncio.CancelledError`: the saving of the partial moves to the background. -/
def Turn.cancel (cfg : Config) (t : Turn) : Option Turn :=
  if t.pc.isEnded then none
  else some
    { t with
      pc := .ended .cancelled
      background := t.background ++ (t.pc.inTry.map Frame.buffer).toList
      unsettled := t.unsettled ++ (t.saving cfg).toList }

/-- The retrieval service answers. -/
def Turn.retrieved (cfg : Config) (t : Turn) (r : Retrieval) : Option Turn :=
  match t.pc with
  | .retrieving =>
    match r with
    | .chunks chunks =>
      let (systemPrompt, used) := ragSystemPrompt cfg.chatSystemPrompt chunks
        cfg.ragContextCharBudget
      let t := { t with turn := { t.turn with systemPrompt := systemPrompt, citations := used } }
      if used = [] then some { t with pc := .streaming {} }
      else some (t.emit (.citations (citationItems used)) .yieldCitations)
    | .embeddingError code message => some { t with pc := .saveRetrievalError code message }
    | .otherException =>
      some { t with pc := .saveRetrievalError "internal_error" retrievalFailedMessage }
  | _ => none

/-- The provider's stream moves on. -/
def Turn.provided (t : Turn) (step : ProviderStep) (latencyMs : Int) : Option Turn :=
  match t.pc with
  | .streaming f =>
    match step with
    | .event (.textDelta text) =>
      some (t.emit (.delta text) (.yieldDelta { f with buffer := f.buffer ++ [text] }))
    | .event (.usage tokensIn tokensOut) =>
      some { t with
        pc := .streaming { f with tokensIn := some tokensIn, tokensOut := some tokensOut } }
    | .event (.error code message) => some { t with pc := .saveStreamError f code message }
    | .event (.stop stopReason) =>
      some { t with pc := .saveSuccess { f with stopReason := stopReason } latencyMs }
    | .event .other => some { t with pc := .streaming f }
    | .finished => some { t with pc := .saveSuccess f latencyMs }
    | .raised => some { t with pc := .ended .raised }
  | _ => none

/-- After the awaited transaction: what is yielded does not depend on its fate, except after
`_persist_success`. -/
def Turn.afterSave (t : Turn) (saved : Bool) : Turn :=
  match t.pc with
  | .saveRetrievalError code message => t.emit (.error code message t.ctx.traceId) .yieldLast
  | .saveStreamError f code message =>
    t.emit (.error code message t.ctx.traceId) (.yieldStreamError f)
  | .closing _ => { t with pc := .ended .generatorExit }
  | .saveSuccess f latencyMs =>
    if saved then
      { t.emit (.done t.id f.stopReason.finishReason f.tokensIn f.tokensOut latencyMs) .yieldLast
        with titles := t.titles ++ if t.turn.titleIsNone then [t.conversationId] else [] }
    else t.emit (.error "internal_error" persistFailedMessage t.ctx.traceId) .yieldLast
  | _ => t

/-- The commit of a transaction whose failure nobody hears of. -/
def Db.attempt (db : Db) (txn : Txn) : Db := (db.commit? txn).getD db

/-- `_persist_cancelled_guarded`: nothing to save without a buffer. -/
def Turn.backgroundTxn (cfg : Config) (t : Turn) (buffer : List Text) : Option Txn :=
  if buffer = [] then none else some (t.cancelledTxn cfg buffer)

/-- One step of the turn. -/
def Turn.step (cfg : Config) (db : Db) (t : Turn) : Choice → Option (Db × Turn)
  | .resume => t.resume.map fun t => (db, t)
  | .close => t.close.map fun t => (db, t)
  | .cancel => (t.cancel cfg).map fun t => (db, t)
  | .retrieved r => (t.retrieved cfg r).map fun t => (db, t)
  | .provider step latencyMs => (t.provided step latencyMs).map fun t => (db, t)
  | .commit => (t.saving cfg).map fun txn =>
    match db.commit? txn with
    | some db' => (db', t.afterSave true)
    | none => (db, t.afterSave false)
  | .fail lost => (t.saving cfg).map fun txn =>
    (db, { t.afterSave false with unsettled := t.unsettled ++ if lost then [txn] else [] })
  | .background k => (t.background[k]?).map fun buffer =>
    let t' := { t with background := t.background.eraseIdx k }
    match t.backgroundTxn cfg buffer with
    | some txn => (db.attempt txn, t')
    | none => (db, t')
  | .backgroundFail k lost => (t.background[k]?).map fun buffer =>
    (db, { t with
      background := t.background.eraseIdx k
      unsettled := t.unsettled ++ if lost then (t.backgroundTxn cfg buffer).toList else [] })
  | .settle k commits => (t.unsettled[k]?).map fun txn =>
    (if commits then db.attempt txn else db,
      { t with unsettled := t.unsettled.eraseIdx k })

/-- One turn on its own database. -/
def soloStep (cfg : Config) (s : Db × Turn) (c : Choice) : Option (Db × Turn) :=
  s.2.step cfg s.1 c

/-! ## 4. A small instance -/

/-- Nothing stored. -/
def Db.empty : Db := ⟨.empty, [], []⟩

def sampleConfig : Config where
  chatSystemPrompt := []
  ragContextCharBudget := 1000
  llmName := "fake"

/-- Message 1 answers message 0, without retrieval. -/
def samplePrepared : Prepared where
  userMessageId := 0
  assistantMessageId := 1
  history := [⟨.user, ['?']⟩]
  systemPrompt := []
  params := { model := "m" }
  titleIsNone := true
  sourceIds := none

def sampleContext : AuthContext := ⟨0, "trace-1"⟩

/-- One delta, and then a StreamError. -/
def deltaThenError : List Choice :=
  [.resume, .provider (.event (.textDelta ['a'])) 0, .resume,
    .provider (.event (.error "transient" "down")) 0]

end AtlasKnowledge.Chat
