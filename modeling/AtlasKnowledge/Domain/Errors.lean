/-
# Application errors

`core/errors.py`: the errors that the conversation and document services raise, each with its
frozen code, its HTTP status and its message.
-/

namespace AtlasKnowledge

/-- `AppError`. -/
structure AppError where
  code : String
  httpStatus : Nat
  message : String
  deriving DecidableEq, Repr

namespace AppError

def validationError (message : String) : AppError := ⟨"validation_error", 422, message⟩

def conversationNotFound : AppError := ⟨"conversation_not_found", 404, "找不到對話"⟩

def invalidCursor : AppError := ⟨"invalid_cursor", 422, "分頁游標無效"⟩

def duplicateMessage : AppError := ⟨"duplicate_message", 409, "訊息已送出"⟩

def documentNotFound : AppError := ⟨"document_not_found", 404, "找不到文件"⟩

def sourceNotFound : AppError := ⟨"source_not_found", 404, "找不到知識來源"⟩

def unsupportedMediaType : AppError := ⟨"unsupported_media_type", 415, "不支援的檔案型別"⟩

def documentNotRetryable : AppError := ⟨"document_not_retryable", 409, "僅處理失敗的文件可重試"⟩

end AppError

end AtlasKnowledge
