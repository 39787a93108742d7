/-
# The embedding adapter

`OpenAICompatEmbedding` of `infrastructure/embedding/openai_compat.py`.  The texts go to the
service in batches; the rows of a response are sorted by their index, which is not looked at again.

Of the HTTP client the model keeps what a request comes to, of the interpreter its floats and
`sorted`, as parameters: what `sorted` makes of keys that are not in any order is up to it.
-/
import AtlasKnowledge.Domain.Provider
import AtlasKnowledge.Lib.Fallible
import AtlasKnowledge.Lib.Json

namespace AtlasKnowledge.Embedding

open Json (Raised PyStr)
open Fallible (Ranked)

/-! ## 1. What the adapter runs on -/

/-- A row with its key. -/
abbrev Keyed (F : Type) := Json.Value F × Json.Value F

/-- `float(n)`, or `none` for an `OverflowError`; `float(s)`, or `none` for a `ValueError`; the
integer that a float equals; and `sorted` by the keys, which raises what a comparison raises. -/
structure Python (F : Type) where
  ofInt : Int → Option F
  ofStr : PyStr → Option F
  integer? : F → Option Int
  sorted : List (Keyed F) → Except Raised (List (Keyed F))

variable {F : Type}

/-- The integer that a value equals, if it is a number that equals one. -/
def Python.rank (py : Python F) (value : Json.Value F) : Option Int := value.integer? py.integer?

/-- `sorted` keeps the items, and numbers that equal integers come in the order of these. -/
structure Python.Lawful (py : Python F) : Prop where
  perm : ∀ rows sorted, py.sorted rows = .ok sorted → sorted.Perm rows
  ranked : ∀ rows, (∀ x ∈ rows, (py.rank x.1).isSome) →
    ∃ sorted, py.sorted rows = .ok sorted ∧ Ranked py.rank sorted

/-- `float(x)`. -/
def Python.float (py : Python F) : Json.Value F → Except Raised F
  | .bool b => (py.ofInt b.toNat).elim (.error .overflowError) .ok
  | .int n => (py.ofInt n).elim (.error .overflowError) .ok
  | .float x => .ok x
  | .str s => (py.ofStr s).elim (.error .valueError) .ok
  | .null | .arr _ | .obj _ => .error .typeError

/-- A response, with what `resp.json()` returns or raises. -/
structure Response (F : Type) where
  status : Nat
  content : List UInt8
  json : Except Raised (Json.Value F)

/-- What a request comes to. -/
inductive Outcome (F : Type) where
  | timeout
  | httpError
  | response (r : Response F)

/-! ## 2. Errors -/

/-- `EmbeddingError`. -/
structure EmbeddingError where
  code : ProviderErrorCode
  message : String
  deriving DecidableEq, Repr

/-- What leaves `embed` other than its result. -/
inductive Exception where
  | embeddingError (e : EmbeddingError)
  | raised (e : Raised)
  deriving DecidableEq, Repr

/-- `_ERROR_MESSAGES`. -/
def errorMessages : ProviderErrorCode → String
  | .auth => "embedding 服務驗證失敗"
  | .rateLimited => "embedding 服務忙碌中,請稍後再試"
  | .contextLength => "待嵌入文字過長,超出模型上限"
  | .transient => "embedding 服務暫時無法回應,請稍後再試"
  | .providerError => "embedding 服務回應異常"

/-- `_error`. -/
def error (code : ProviderErrorCode) : Exception := .embeddingError ⟨code, errorMessages code⟩

/-- `except (KeyError, TypeError, ValueError)`. -/
def caught : Raised → Bool
  | .keyError | .typeError | .valueError => true
  | .indexError | .attributeError | .overflowError | .recursionError => false

/-! ## 3. One batch -/

/-- `[float(x) for x in row["embedding"]]`. -/
def vectorOf (py : Python F) (row : Json.Value F) : Except Raised (List F) := do
  let items ← (← row.item "embedding".toList).iterate
  items.mapM py.float

/-- A row with its index. -/
def keyed (row : Json.Value F) : Except Raised (Keyed F) := do
  return (← row.item "index".toList, row)

/-- The rows of `resp.json()["data"]`. -/
def dataOf (json : Except Raised (Json.Value F)) : Except Raised (List (Json.Value F)) := do
  (← (← json).item "data".toList).iterate

/-- The body of the `try`. -/
def vectorsOf (py : Python F) (json : Except Raised (Json.Value F)) :
    Except Raised (List (List F)) := do
  let rows ← dataOf json
  let ordered ← py.sorted (← rows.mapM keyed)
  ordered.mapM fun row => vectorOf py row.2

/-- `OpenAICompatEmbedding`; `init` is its `__init__`. -/
structure OpenAICompatEmbedding where
  dim : Nat
  batchSize : Nat
  pos : 0 < batchSize

def OpenAICompatEmbedding.init (dim : Nat) (batchSize : Int) : OpenAICompatEmbedding :=
  ⟨dim, (max 1 batchSize).toNat, by omega⟩

section Embed

variable (py : Python F) (lowered : List UInt8 → Text) (self : OpenAICompatEmbedding)

/-- `_embed_batch`. -/
def embedBatch (outcome : Outcome F) (batch : List Text) : Except Exception (List (List F)) :=
  match outcome with
  | .timeout => .error (error .transient)
  | .httpError => .error (error .transient)
  | .response resp =>
    if 400 ≤ resp.status then
      .error (error (.ofHttpStatus lowered resp.status resp.content))
    else
      match vectorsOf py resp.json with
      | .error e => if caught e then .error (error .providerError) else .error (.raised e)
      | .ok vectors =>
        if vectors.length ≠ batch.length then .error (error .providerError)
        else if vectors.any fun vector => vector.length ≠ self.dim then
          .error (error .providerError)
        else .ok vectors

/-- `texts[start : start + self._batch_size]`, for each `start`. -/
def batches (texts : List Text) : List (List Text) :=
  (List.range' 0 ((texts.length + self.batchSize - 1) / self.batchSize) self.batchSize).map
    fun start => (texts.drop start).take self.batchSize

/-- The loop of `embed`, with what each request comes to. -/
def embedLoop (responses : Nat → Outcome F) :
    Nat → List (List Text) → List (List F) → Except Exception (List (List F))
  | _, [], vectors => .ok vectors
  | k, batch :: rest, vectors => do
    let more ← embedBatch py lowered self (responses k) batch
    embedLoop responses (k + 1) rest (vectors ++ more)

/-- `embed`. -/
def embed (responses : Nat → Outcome F) (texts : List Text) : Except Exception (List (List F)) :=
  if texts = [] then .ok [] else embedLoop py lowered self responses 0 (batches self texts) []

end Embed

end AtlasKnowledge.Embedding
