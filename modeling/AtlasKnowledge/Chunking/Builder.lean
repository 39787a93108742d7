/-
# The default chunking strategy

`DefaultRecursiveChunking` with its `_Builder` (`default_recursive.py`) and the table rows it
hands to `pack_table` (`table_row.py`), as the code runs them.
-/
import AtlasKnowledge.Chunking.Split

namespace AtlasKnowledge.Chunking

/-- `ChunkingConfig`. -/
structure ChunkingConfig where
  targetTokens : Int := 450
  overlapTokens : Int := 80
  deriving DecidableEq, Repr

/-- `sep.join(parts)`. -/
def join (sep : Char) (parts : List Text) : Text := [sep].intercalate parts

/-- Joining adds the separators only. -/
theorem filter_join {sep : Char} {p : Char → Bool} (h : p sep = false) (parts : List Text) :
    (join sep parts).filter p = parts.flatten.filter p := by
  induction parts with
  | nil => rfl
  | cons part parts ih =>
    cases parts with
    | nil => simp [join]
    | cons next parts =>
      have hsep : [sep].filter p = [] := by simp [h]
      rw [join, List.intercalate_cons_cons, List.filter_append, List.filter_append, hsep,
        List.append_nil, List.flatten_cons, List.filter_append, ← ih]
      rfl

/-! ## 1. `pack_table` -/

/-- What stands between two cells. -/
def cellSeparator : Char := '\uff5c'

/-- What stands between two rows. -/
def rowSeparator : Char := '\n'

/-- The cell at `i` of a row, under its header. -/
def serializeCell (header : List Text) (value : Text) (i : Nat) : Text :=
  match header[i]? with
  | some title => if title ≠ [] then title ++ ':' :: ' ' :: value else value
  | none => value

/-- `_serialize_row`. -/
def serializeRow (header row : List Text) : Text :=
  join cellSeparator
    ((row.zipIdx.map fun cell => serializeCell header cell.1 cell.2).filter fun cell => cell ≠ [])

/-- The locals of the loop of `pack_table`. -/
structure TablePacking where
  packed : List Text := []
  buffer : List Text := []
  bufferTokens : Nat := 0

/-- The loop body of `pack_table`. -/
def packRow (header : List Text) (cfg : ChunkingConfig) (s : TablePacking) (row : List Text) :
    TablePacking :=
  let line := serializeRow header row
  if line = [] then s
  else
    let lineTokens := estimateTokens line
    let s :=
      if s.buffer ≠ [] ∧ cfg.targetTokens < (s.bufferTokens + lineTokens : Nat) then
        { packed := s.packed ++ [join rowSeparator s.buffer], buffer := [], bufferTokens := 0 }
      else s
    { s with buffer := s.buffer ++ [line], bufferTokens := s.bufferTokens + lineTokens }

/-- What is returned at the end of the loop. -/
def TablePacking.close (s : TablePacking) : List Text :=
  if s.buffer ≠ [] then s.packed ++ [join rowSeparator s.buffer] else s.packed

/-- `pack_table`. -/
def packTable (block : Block) (cfg : ChunkingConfig) : List Text :=
  match block.rows.getD [] with
  | [] => []
  | [header] => [join cellSeparator (header.filter fun cell => cell ≠ [])]
  | header :: body => (body.foldl (packRow header cfg) {}).close

/-! ## 2. `_Builder` -/

/-- `_Builder`; its configuration is the parameter `cfg` of its methods. -/
structure Builder where
  drafts : Drafts := .empty
  headings : List (Int × Text) := []
  pending : List Text := []
  pendingTokens : Nat := 0
  pendingPage : Option Int := none
  sectionPrefix : Option Text := none
  overlap : Text := []

/-- `drafts.append(ChunkDraft(seq=len(drafts), ...))`. -/
def push (drafts : Drafts) (text : Text) (info : ChunkMeta) : Drafts where
  list := drafts.list ++
    [{ seq := drafts.list.length, text := text, tokens := estimateTokens text, info := info }]
  seqs := by
    rw [List.map_append, drafts.seqs, List.length_append]
    exact List.range_succ.symm

namespace Builder

/-- `_emit`. -/
def emit (b : Builder) (text : Text) (blockType : String) (page : Option Int) : Builder :=
  { b with
    drafts := push b.drafts text
      { page := page, headingPath := b.headings.map Prod.snd, blockType := blockType,
        kind := "document" } }

/-- `flush`. -/
def flush (cfg : ChunkingConfig) (b : Builder) : Builder :=
  if b.pending = [] then b
  else
    let body := join '\n' b.pending
    let parts := [b.overlap, b.sectionPrefix.getD [], body].filter fun part => part ≠ []
    { b.emit (join '\n' parts) "text" b.pendingPage with
      sectionPrefix := none
      overlap := tailWithin body cfg.overlapTokens
      pending := []
      pendingTokens := 0
      pendingPage := none }

/-- `block.level or 1`. -/
def levelOf (block : Block) : Int :=
  match block.level with
  | some level => if level = 0 then 1 else level
  | none => 1

/-- `start_section`; the headings are a stack whose top is its last element. -/
def startSection (cfg : ChunkingConfig) (b : Builder) (block : Block) : Builder :=
  let b := b.flush cfg
  let level := levelOf block
  { b with
    headings := b.headings.rdropWhile (fun heading => level ≤ heading.1) ++ [(level, block.text)]
    sectionPrefix := some block.text
    overlap := [] }

/-- The second half of the loop body of `add_text`: the piece is pending. -/
def hold (page : Option Int) (b : Builder) (piece : Text) : Builder :=
  { b with
    pendingPage := if b.pending = [] then page else b.pendingPage
    pending := b.pending ++ [piece]
    pendingTokens := b.pendingTokens + estimateTokens piece }

/-- The loop body of `add_text`. -/
def addPiece (cfg : ChunkingConfig) (page : Option Int) (b : Builder) (piece : Text) : Builder :=
  let full := b.pending ≠ [] ∧
    cfg.targetTokens < (b.pendingTokens + estimateTokens piece : Nat)
  hold page (if full then b.flush cfg else b) piece

/-- `add_text`. -/
def addText (cfg : ChunkingConfig) (b : Builder) (block : Block) : Builder :=
  (splitToLimit block.text cfg.targetTokens).foldl (addPiece cfg block.page) b

/-- `add_table`. -/
def addTable (cfg : ChunkingConfig) (b : Builder) (block : Block) : Builder :=
  let b := (packTable block cfg).foldl (fun b text => b.emit text "table" block.page) (b.flush cfg)
  { b with overlap := [] }

/-- The loop body of `chunk`. -/
def addBlock (cfg : ChunkingConfig) (b : Builder) (block : Block) : Builder :=
  match block.type with
  | .heading => b.startSection cfg block
  | .table => b.addTable cfg block
  | .paragraph | .listItem | .code => b.addText cfg block

/-- `finish`. -/
def finish (cfg : ChunkingConfig) (b : Builder) : Drafts := (b.flush cfg).drafts

end Builder

/-- `DefaultRecursiveChunking.chunk`. -/
def chunk (doc : NormalizedDocument) (cfg : ChunkingConfig) : Drafts :=
  (doc.blocks.foldl (Builder.addBlock cfg) {}).finish cfg

end AtlasKnowledge.Chunking
