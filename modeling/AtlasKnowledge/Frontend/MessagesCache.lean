/-
# The messages of a conversation in the query cache

`useMessages` and `useChatStream` (`features/chat`) share one entry of the query cache.  Script
code runs from one `await` to the next without a break, so a step of the model is what stands
between two of them: `loadEarlier` takes three (the read of the cache, the answer, the write), and
`send` takes one for its start, one for each event and one for its end.
-/
import AtlasKnowledge.Domain.Document
import AtlasKnowledge.Lib.Transition

namespace AtlasKnowledge.Frontend

/-! ## 1. The types of the interface (`api/types.ts`) -/

/-- A citation, as the API answers. -/
structure CitationOut where
  rank : Int
  chunkId : Option Text
  documentId : Option Text
  filename : Text
  snippet : Text
  score : Rat
  deriving DecidableEq, Repr

/-- `MessageOut`; the members of `content_meta` are kept as the text of their values. -/
structure MessageOut where
  id : Text
  role : Text
  content : Text
  contentMeta : List (Text × Text) := []
  tokensIn : Option Int := none
  tokensOut : Option Int := none
  latencyMs : Option Int := none
  createdAt : Text
  citations : List CitationOut := []
  deriving DecidableEq, Repr

/-- A page of messages, as the API answers. -/
structure MessagePage where
  items : List MessageOut
  nextCursor : Option Text
  deriving DecidableEq, Repr

/-- The data of `message_start`. -/
structure SseMessageStart where
  userMessageId : Text
  assistantMessageId : Text
  deriving DecidableEq, Repr

/-- The data of `done`. -/
structure SseDone where
  messageId : Text
  finishReason : Text
  tokensIn : Option Int
  tokensOut : Option Int
  latencyMs : Int
  deriving DecidableEq, Repr

/-- An event of the stream with its parsed data; of an error only the message is read. -/
inductive StreamEvent where
  | messageStart (d : SseMessageStart)
  | citations (items : List CitationOut)
  | delta (text : Text)
  | done (d : SseDone)
  | error (message : Text)
  | unknown
  deriving DecidableEq, Repr

/-! ## 2. The entry of the cache -/

structure MessagesCache where
  items : List MessageOut
  earlierCursor : Option Text
  deriving DecidableEq, Repr

/-- The functions that `send` hands to `patch`. -/
inductive Patch where
  | append (m : MessageOut)
  | rename (old new : Text)
  deriving DecidableEq, Repr

def Patch.apply : Patch → List MessageOut → List MessageOut
  | .append m, items => items ++ [m]
  | .rename old new, items => items.map fun m => if m.id = old then { m with id := new } else m

/-- `patch`: an entry that is not there counts as an empty one. -/
def patch (p : Patch) (old : Option MessagesCache) : MessagesCache :=
  let base := old.getD ⟨[], none⟩
  { base with items := p.apply base.items }

/-! ## 3. `useChatStream` -/

/-- `ChatStatus`. -/
inductive ChatStatus where
  | idle | streaming | done | error
  deriving DecidableEq, Repr

/-- The local variables of a call of `send`. -/
structure Call where
  tempUserId : Text
  assistantId : Option Text := none
  deriving DecidableEq, Repr

/-- The refs of the composable, the call in progress, and whether the entry was invalidated. -/
structure ChatStream where
  status : ChatStatus := .idle
  streamingText : Text := []
  streamingCitations : List CitationOut := []
  errorMessage : Option Text := none
  call : Option Call := none
  invalidated : Bool := false
  deriving DecidableEq, Repr

/-- What the loop of `send` is left by, besides the end of the stream. -/
inductive Thrown where
  | abort
  | error (message : Text)
  | other
  deriving DecidableEq, Repr

/-- `message`, at the time `now`. -/
def message (now id role content : Text) (done : Option SseDone)
    (citations : List CitationOut := []) : MessageOut :=
  { id := id
    role := role
    content := content
    tokensIn := done.bind SseDone.tokensIn
    tokensOut := done.bind SseDone.tokensOut
    latencyMs := done.map SseDone.latencyMs
    createdAt := now
    citations := citations }

/-- The id of a message that the server has not named yet. -/
def tempId (clientMessageId : Text) : Text := "temp-".toList ++ clientMessageId

/-- `send`, up to the request. -/
def ChatStream.start (s : ChatStream) (now content clientMessageId : Text) : ChatStream × Patch :=
  let tempUserId := tempId clientMessageId
  ({ s with
      status := .streaming, streamingText := [], streamingCitations := [], errorMessage := none,
      call := some { tempUserId := tempUserId } },
    .append (message now tempUserId "user".toList content none))

/-- One turn of the loop of `send`. -/
def ChatStream.onEvent (s : ChatStream) (call : Call) (now : Text) :
    StreamEvent → ChatStream × Option Patch
  | .messageStart d =>
    ({ s with call := some { call with assistantId := some d.assistantMessageId } },
      some (.rename call.tempUserId d.userMessageId))
  | .citations items => ({ s with streamingCitations := items }, none)
  | .delta text => ({ s with streamingText := s.streamingText ++ text }, none)
  | .done d =>
    ({ s with status := .done },
      some (.append (message now (call.assistantId.getD d.messageId) "assistant".toList
        s.streamingText (some d) s.streamingCitations)))
  | .error text => ({ s with errorMessage := some text, status := .error }, none)
  | .unknown => (s, none)

/-- The `catch` of `send`. -/
def ChatStream.onThrown (s : ChatStream) : Option Thrown → ChatStream
  | none => s
  | some .abort => { s with status := .idle }
  | some (.error text) => { s with errorMessage := some text, status := .error }
  | some .other => { s with errorMessage := some "傳送失敗".toList, status := .error }

/-- The `finally` of `send`. -/
def ChatStream.onFinally (s : ChatStream) : ChatStream :=
  let s := if s.status = .streaming then
      { s with errorMessage := some "連線中斷,請重新送出".toList, status := .error }
    else s
  { s with
    streamingText := [], streamingCitations := [], call := none,
    invalidated := s.invalidated || s.status ≠ .done }

/-! ## 4. The steps -/

/-- `loadEarlier`: the cache it read is in its hands until it writes. -/
inductive Load where
  | idle
  | waiting (cache : MessagesCache)
  | answered (cache : MessagesCache) (page : MessagePage)
  deriving DecidableEq, Repr

structure Client where
  cache : Option MessagesCache
  load : Load := .idle
  loadingEarlier : Bool := false
  stream : ChatStream := {}
  deriving DecidableEq, Repr

inductive Act where
  /-- `loadEarlier` is called. -/
  | loadEarlier
  /-- The request for the page is answered, or fails. -/
  | response (page : Option MessagePage)
  /-- `loadEarlier` goes on with the page. -/
  | write
  /-- `send` is called, with the id that `crypto.randomUUID` draws. -/
  | send (now content clientMessageId : Text)
  | event (now : Text) (ev : StreamEvent)
  /-- The stream ends, or the loop is left by an exception. -/
  | close (thrown : Option Thrown)
  deriving DecidableEq, Repr

/-- A step of `send`, with the patch it makes. -/
def ChatStream.step (s : ChatStream) : Act → Option (ChatStream × Option Patch)
  | .send now content clientMessageId =>
    match s.call with
    | none =>
      let r := s.start now content clientMessageId
      some (r.1, some r.2)
    | some _ => none
  | .event now ev => s.call.map fun call => s.onEvent call now ev
  | .close thrown => s.call.map fun _ => ((s.onThrown thrown).onFinally, none)
  | _ => none

/-- A patch, or none, on the entry. -/
def patched (cache : Option MessagesCache) : Option Patch → Option MessagesCache
  | none => cache
  | some p => some (patch p cache)

def step (s : Client) : Act → Option Client
  | .loadEarlier =>
    match s.cache with
    | none => some s
    | some cache =>
      if cache.earlierCursor = none ∨ s.loadingEarlier then some s
      else some { s with load := .waiting cache, loadingEarlier := true }
  | .response (some page) =>
    match s.load with
    | .waiting cache => some { s with load := .answered cache page }
    | _ => none
  | .response none =>
    match s.load with
    | .waiting _ => some { s with load := .idle, loadingEarlier := false }
    | _ => none
  | .write =>
    match s.load with
    | .answered cache page =>
      some
        { s with
          cache := some ⟨page.items.reverse ++ cache.items, page.nextCursor⟩
          load := .idle, loadingEarlier := false }
    | _ => none
  | act =>
    (s.stream.step act).map fun r => { s with stream := r.1, cache := patched s.cache r.2 }

/-- The conversation is open, with what the first query found. -/
def MessagesCache.client (cache : MessagesCache) : Client := { cache := some cache }

end AtlasKnowledge.Frontend
