/-
# The system prompt of a turn with retrieval

The RAG half of `application/prompts.py`: which of the retrieved chunks fit into the character
budget, and the system prompt made of them.
-/
import AtlasKnowledge.Chat.Data

namespace AtlasKnowledge.Chat

/-- `_RAG_INSTRUCTION`. -/
def ragInstruction : Text :=
  ("僅依據下列資料回答使用者的問題;資料不足以回答時明白說出「提供的資料不足」," ++
    "NEVER 自行編造或補充資料以外的內容。引用時在句末以 [n] 標註對應資料編號。").toList

/-- `_RAG_EMPTY`. -/
def ragEmpty : Text := "(這次沒有檢索到相關資料)".toList

/-- `_render_block`. -/
def renderBlock (chunk : RetrievedChunk) (rank : Nat) : Text :=
  let path := List.intercalate " > ".toList chunk.info.headingPath
  let title := if path = [] then chunk.filename else chunk.filename ++ '｜' :: path
  '[' :: (toString rank).toList ++ "] ".toList ++ title ++ '\n' :: chunk.text

/-- The loop of `rag_system_prompt`: the blocks and the chunks adopted so far, and what is left
of the budget. -/
def adoptChunks (blocks : List Text) (used : List RetrievedChunk) (remaining : Int) :
    List RetrievedChunk → List Text × List RetrievedChunk
  | [] => (blocks, used)
  | chunk :: chunks =>
    let block := renderBlock chunk (used.length + 1)
    if remaining < block.length then (blocks, used)
    else adoptChunks (blocks ++ [block]) (used ++ [chunk]) (remaining - block.length) chunks

/-- `rag_system_prompt`. -/
def ragSystemPrompt (base : Text) (chunks : List RetrievedChunk) (charBudget : Int) :
    Text × List RetrievedChunk :=
  let (blocks, used) := adoptChunks [] [] charBudget chunks
  let context := if blocks = [] then ragEmpty else List.intercalate ['\n', '\n'] blocks
  (base ++ '\n' :: '\n' :: ragInstruction ++ '\n' :: '\n' :: context, used)

end AtlasKnowledge.Chat
