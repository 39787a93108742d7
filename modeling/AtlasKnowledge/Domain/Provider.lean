/-
# Provider errors

The five kinds of `domain/ports/llm.py`, and the map from an HTTP status to one of them, which
the LLM adapter and the embedding adapter each spell out.
-/
import AtlasKnowledge.Domain.Document
import Mathlib.Data.List.Infix

namespace AtlasKnowledge

/-- `ProviderErrorCode`. -/
inductive ProviderErrorCode where
  | rateLimited | auth | contextLength | transient | providerError
  deriving DecidableEq, Repr

namespace ProviderErrorCode

/-- The value of the enumeration. -/
def text : ProviderErrorCode → String
  | .rateLimited => "rate_limited"
  | .auth => "auth"
  | .contextLength => "context_length"
  | .transient => "transient"
  | .providerError => "provider_error"

/-- `_map_http_status`; `lowered` is `raw.decode("utf-8", "ignore").lower()`. -/
def ofHttpStatus (lowered : List UInt8 → Text) (status : Nat) (raw : List UInt8) :
    ProviderErrorCode :=
  if status = 401 ∨ status = 403 then .auth
  else if status = 429 then .rateLimited
  else if status = 400 then
    if "context".toList <:+: lowered raw ∨ "length".toList <:+: lowered raw then .contextLength
    else .providerError
  else if 500 ≤ status then .transient
  else .providerError

end ProviderErrorCode

end AtlasKnowledge
