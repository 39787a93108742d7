/-
# The LLM adapter

`OpenAICompatProvider` of `infrastructure/llm/openai_compat.py`.  `_stream` is an async generator
that indexes into decoded JSON line by line and lets exceptions through; `chat` passes its events
on and turns what it raises into one event.

A generator is what it yields and what it raises after that.  Of the transport the model keeps
what it raises and when, of the interpreter `json.loads` and the floats, of pydantic the
validation of an `int`, as parameters.
-/
import AtlasKnowledge.Chat.Data
import AtlasKnowledge.Domain.Provider
import AtlasKnowledge.Lib.Json
import AtlasKnowledge.Lib.Str

namespace AtlasKnowledge.Llm

open Chat (StreamEvent StopReason)
open Json (Raised PyStr)

/-! ## 1. What the adapter runs on -/

/-- `json.loads`; the integer that a float equals; and what an `int` field takes. -/
structure Python (F : Type) where
  loads : Text → Except Raised (Json.Value F)
  integer? : F → Option Int
  asInt : Json.Value F → Option Int

/-- An exception of the transport, up to what catches it. -/
inductive Failure where
  | timeout | httpError | other
  deriving DecidableEq, Repr

/-- A response: what `aread` returns or raises, the lines that come and what is raised after them,
and what closing raises, once everything is read and before. -/
structure Response where
  status : Nat
  aread : Except Failure (List UInt8)
  lines : List Text
  readError : Option Failure
  closing : (fullyRead : Bool) → Option Failure

/-- What the request comes to. -/
inductive Exchange where
  | failed (e : Failure)
  | response (resp : Response)

/-- What a generator yields and then raises. -/
structure Generated where
  events : List (StreamEvent PyStr)
  raised : Option Failure := none
  deriving DecidableEq, Repr

/-! ## 2. Errors -/

/-- `_ERROR_MESSAGES`. -/
def errorMessages : ProviderErrorCode → String
  | .auth => "上游服務驗證失敗"
  | .rateLimited => "上游服務忙碌中,請稍後再試"
  | .contextLength => "對話內容過長,超出模型上限"
  | .transient => "上游服務暫時無法回應,請稍後再試"
  | .providerError => "上游服務回應異常"

/-- `_error`. -/
def error (code : ProviderErrorCode) : StreamEvent PyStr := .error code.text (errorMessages code)

/-! ## 3. One line -/

section Stream

variable {F : Type} (py : Python F)

/-- The payload of a data line. -/
def payload? (rawLine : Text) : Option Text :=
  let line := Str.strip rawLine
  if "data:".toList.isPrefixOf line then some (Str.strip (line.drop "data:".length)) else none

def donePayload : Text := "[DONE]".toList

/-- `choices[0]`, if there are any. -/
def choice (obj : Json.Value F) : Except Raised (Option (Json.Value F)) := do
  let choices := (← obj.get "choices".toList).orElse py.integer? (.arr [])
  if choices.truthy py.integer? then return some (← choices.first) else return none

/-- `TextDelta(text=content)`: any string, also with half of a surrogate pair in it. -/
def textDelta : Json.Value F → Except Raised PyStr
  | .str s => .ok s
  | _ => .error .valueError

/-- The text that the line yields. -/
def content (obj : Json.Value F) : Except Raised (Option PyStr) := do
  match ← choice py obj with
  | none => return none
  | some first =>
    let delta := (← first.get "delta".toList).orElse py.integer? (.obj [])
    let content ← delta.get "content".toList
    if content.truthy py.integer? then return some (← textDelta content) else return none

/-- `_FINISH_MAP.get(...)`; a list or an object is not hashable. -/
def finishMap : Json.Value F → Except Raised (Option StopReason)
  | .str s =>
    if s = Json.pyStr "stop".toList then .ok (some .endTurn)
    else if s = Json.pyStr "length".toList then .ok (some .maxTokens)
    else if s = Json.pyStr "tool_calls".toList then .ok (some .toolUse)
    else .ok none
  | .arr _ | .obj _ => .error .typeError
  | _ => .ok none

/-- `UsageInfo(...)`. -/
def usageInfo (input output : Json.Value F) : Except Raised (Int × Int) :=
  match py.asInt input, py.asInt output with
  | some i, some o => .ok (i, o)
  | _, _ => .error .valueError

/-- The finish reason of the line. -/
def finishReason (obj : Json.Value F) : Except Raised (Option StopReason) := do
  match ← choice py obj with
  | none => return none
  | some first => finishMap (← first.get "finish_reason".toList)

/-- The usage of the line. -/
def usage (obj : Json.Value F) : Except Raised (Option (Int × Int)) := do
  let usage ← obj.get "usage".toList
  if usage.truthy py.integer? then
    let input ← usage.item "prompt_tokens".toList
    let output ← usage.item "completion_tokens".toList
    return some (← usageInfo py input output)
  else return none

/-- What the line holds behind its content. -/
def laterFields (obj : Json.Value F) : Except Raised (Option StopReason × Option (Int × Int)) := do
  return (← finishReason py obj, ← usage py obj)

/-- `stop_reason` and `usage_event`. -/
structure Buffer where
  stopReason : StopReason := .endTurn
  usage : Option (Int × Int) := none
  deriving DecidableEq, Repr

/-- What comes after a line. -/
inductive Next where
  | go (b : Buffer)
  | done
  | raised
  deriving DecidableEq, Repr

/-- The body of the loop: what it yields, and what comes after it. -/
def readLine (b : Buffer) (rawLine : Text) : List (StreamEvent PyStr) × Next :=
  match payload? rawLine with
  | none => ([], .go b)
  | some payload =>
    if payload = donePayload then ([], .done)
    else
      match py.loads payload with
      | .error _ => ([], .raised)
      | .ok obj =>
        match content py obj with
        | .error _ => ([], .raised)
        | .ok text =>
          match laterFields py obj with
          | .error _ => (text.toList.map .textDelta, .raised)
          | .ok (mapped, tokens) =>
            (text.toList.map .textDelta, .go ⟨mapped.getD b.stopReason, tokens.or b.usage⟩)

/-! ## 4. The stream -/

/-- How the loop ends: at `[DONE]`, after the last line, or in an exception. -/
inductive Ending where
  | done (b : Buffer)
  | exhausted
  | raised
  deriving DecidableEq, Repr

/-- `async for raw_line in resp.aiter_lines()`. -/
def readLines : Buffer → List Text → List (StreamEvent PyStr) × Ending
  | _, [] => ([], .exhausted)
  | b, rawLine :: lines =>
    match readLine py b rawLine with
    | (events, .go b') =>
      let rest := readLines b' lines
      (events ++ rest.1, rest.2)
    | (events, .done) => (events, .done b)
    | (events, .raised) => (events, .raised)

/-- `UsageInfo` as an event. -/
def usageEvent (usage : Int × Int) : StreamEvent PyStr := .usage usage.1 usage.2

/-- `_stream`.  An exception that closing raises takes the place of another. -/
def stream (lowered : List UInt8 → Text) : Exchange → Generated
  | .failed e => ⟨[], some e⟩
  | .response resp =>
    if 400 ≤ resp.status then
      match resp.aread with
      | .error e => ⟨[], some ((resp.closing false).getD e)⟩
      | .ok raw => ⟨[error (.ofHttpStatus lowered resp.status raw)], resp.closing true⟩
    else
      match readLines py {} resp.lines with
      | (events, .raised) => ⟨events, some ((resp.closing false).getD .other)⟩
      | (events, .done b) =>
        match resp.closing false with
        | some e => ⟨events, some e⟩
        | none => ⟨events ++ b.usage.toList.map usageEvent ++ [.stop b.stopReason], none⟩
      | (events, .exhausted) =>
        match resp.readError with
        | some e => ⟨events, some ((resp.closing false).getD e)⟩
        | none =>
          match resp.closing true with
          | some e => ⟨events, some e⟩
          | none => ⟨events ++ [error .transient], none⟩

/-- `chat`. -/
def chat (lowered : List UInt8 → Text) (x : Exchange) : Generated :=
  let inner := stream py lowered x
  match inner.raised with
  | none => inner
  | some .timeout => ⟨inner.events ++ [error .transient], none⟩
  | some .httpError => ⟨inner.events ++ [error .transient], none⟩
  | some .other => ⟨inner.events ++ [error .providerError], none⟩

end Stream

end AtlasKnowledge.Llm
