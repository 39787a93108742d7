/-
# Documents and chunks

The two frozen contracts every part of the ingestion path speaks: the block structure a parser
hands over (`domain/entities/document.py`) and the chunk draft a chunking strategy hands over
(`domain/entities/chunk.py`).

Text that is cut, stripped or scanned is a list of characters, as a Python `str` is a sequence
of code points.
-/
import Mathlib.Data.List.Basic

namespace AtlasKnowledge

/-- A Python `str`, as its code points. -/
abbrev Text := List Char

/-- `bytes`. -/
abbrev Bytes := List UInt8

/-- Primary keys (`core/ids.py`, UUIDv7): only their identity matters. -/
abbrev Id := Nat

/-! ## 1. The normalised document -/

/-- `BlockType`. -/
inductive BlockType where
  | heading | paragraph | listItem | table | code
  deriving DecidableEq, Repr

/-- `Block`.  A table carries its content in `rows`, every other block in `text`. -/
structure Block where
  type : BlockType
  text : Text := []
  level : Option Int := none
  page : Option Int := none
  rows : Option (List (List Text)) := none
  deriving DecidableEq, Repr

/-- The entries of `meta["warnings"]`, `block_truncated:i` and `table_truncated:i`; the index
is the position of the block in the finished document. -/
inductive Warning where
  | blockTruncated (index : Nat)
  | tableTruncated (index : Nat)
  deriving DecidableEq, Repr

/-- `NormalizedDocument.meta`.  A key that is absent is `none`; what the code does not name is in
`others`, with its value as JSON text. -/
structure DocumentMeta where
  sourceMime : Option String := none
  pageCount : Option Nat := none
  warnings : Option (List Warning) := none
  others : List (String × String) := []
  deriving DecidableEq, Repr

/-- `NormalizedDocument`. -/
structure NormalizedDocument where
  blocks : List Block
  info : DocumentMeta
  deriving DecidableEq, Repr

/-! ## 2. Chunk drafts -/

/-- `ChunkDraft.meta`: page, heading_path, block_type and kind. -/
structure ChunkMeta where
  page : Option Int := none
  headingPath : List Text := []
  blockType : String := "text"
  kind : String := "document"
  deriving DecidableEq, Repr

/-- `ChunkDraft`. -/
structure ChunkDraft where
  seq : Nat
  text : Text
  tokens : Nat
  info : ChunkMeta := {}
  deriving DecidableEq, Repr

/-- What a chunking strategy returns: the builder numbers its drafts from zero. -/
structure Drafts where
  list : List ChunkDraft
  seqs : list.map ChunkDraft.seq = List.range list.length

/-- No drafts at all. -/
def Drafts.empty : Drafts := ⟨[], rfl⟩

end AtlasKnowledge
