/-
# The rules all parsers share

`infrastructure/parsing/blocks.py`: a parser hands over raw blocks, and `finalize_document`
normalises their text, drops what is blank, caps a block and the document and records what it
has cut in the document's warnings.

The loop is a fold over the blocks (`finalizeBlock`); a block that is blank takes no part in it
(`finalize_eq`), so the result depends on the normalised contents only.
-/
import AtlasKnowledge.Domain.Document
import AtlasKnowledge.Lib.Scan
import AtlasKnowledge.Lib.Str
import Mathlib.Algebra.GroupWithZero.Nat

namespace AtlasKnowledge.Parsing

open Scan Str

/-- `ParseError`: not retryable. -/
structure ParseError where
  message : String
  deriving DecidableEq, Repr

/-! ## 1. Text -/

def maxBlockChars : Nat := 20000

def maxDocumentChars : Nat := 2000000

/-- The replacement of the two other line endings by LF: CR LF first, then CR. -/
def replaceNewlines (raw : Text) : Text :=
  replace ['\r'] ['\n'] (replace ['\r', '\n'] ['\n'] raw)

/-- `_SPACE_EQUIVALENTS`: the ideographic space, NBSP and the zero-width space. -/
def spaceEquivalents : List (Char × Text) :=
  [('\u3000', [' ']), ('\u00a0', [' ']), ('\u200b', [])]

/-- `normalize_text`. -/
def normalizeText (raw : Text) : Text :=
  strip (spaceEquivalents.foldl (fun text e => replace [e.1] e.2 text) (replaceNewlines raw))

/-! ## 2. Tables -/

/-- `_normalize_rows`. -/
def normalizeRows (rows : List (List Text)) : List (List Text) :=
  (rows.map fun row => row.map normalizeText).filter fun row => row.any fun cell => cell ≠ []

/-- The characters of one row. -/
def rowChars (row : List Text) : Nat := (row.map List.length).sum

/-- The loop of `_cap_rows`. -/
def capRowsFrom (kept : List (List Text)) (total : Nat) :
    List (List Text) → List (List Text) × Bool
  | [] => (kept, false)
  | row :: rows =>
    let total := total + rowChars row
    if maxBlockChars < total ∧ kept ≠ [] then (kept, true)
    else capRowsFrom (kept ++ [row]) total rows

/-- `_cap_rows`. -/
def capRows (rows : List (List Text)) : List (List Text) × Bool := capRowsFrom [] 0 rows

/-- `_block_chars`. -/
def blockChars (block : Block) : Nat :=
  match block.rows with
  | some rows => (rows.map rowChars).sum
  | none => block.text.length

/-! ## 3. `finalize_document` -/

/-- The block with its content normalised, unless nothing is left of it. -/
def normalizeBlock (block : Block) : Option Block :=
  match block.rows with
  | some rows =>
    let rows := normalizeRows rows
    if rows = [] then none else some { block with rows := some rows, text := [] }
  | none =>
    let text := normalizeText block.text
    if text = [] then none else some { block with text := text }

/-- The block cut to the limit, with the warning for its place. -/
def capBlock (index : Nat) (block : Block) : Block × List Warning :=
  match block.rows with
  | some rows =>
    let (rows, truncated) := capRows rows
    ({ block with rows := some rows }, if truncated then [.tableTruncated index] else [])
  | none =>
    if maxBlockChars < block.text.length then
      ({ block with text := block.text.take maxBlockChars }, [.blockTruncated index])
    else (block, [])

/-- The locals of the loop. -/
structure Finalizing where
  kept : List Block := []
  warnings : List Warning := []
  total : Nat := 0

/-- The error of a document over the limit. -/
def tooLong : ParseError := ⟨s!"文件內容超過 {maxDocumentChars} 字上限"⟩

/-- The loop body, for a block that is not blank. -/
def appendBlock (s : Finalizing) (block : Block) : Except ParseError Finalizing :=
  let (block, warnings) := capBlock s.kept.length block
  let total := s.total + blockChars block
  if maxDocumentChars < total then .error tooLong
  else .ok { kept := s.kept ++ [block], warnings := s.warnings ++ warnings, total := total }

/-- The loop body. -/
def finalizeBlock (s : Finalizing) (block : Block) : Except ParseError Finalizing :=
  match normalizeBlock block with
  | none => .ok s
  | some block => appendBlock s block

/-- The document the loop ends in. -/
def Finalizing.document (info : DocumentMeta) (s : Finalizing) : NormalizedDocument where
  blocks := s.kept
  info := if s.warnings = [] then info else { info with warnings := some s.warnings }

/-- `finalize_document`. -/
def finalizeDocument (blocks : List Block) (info : DocumentMeta) :
    Except ParseError NormalizedDocument :=
  (blocks.foldlM finalizeBlock {}).map (Finalizing.document info)

/-! ## 4. What the loop does -/

/-- The loop runs over the blocks that are not blank. -/
theorem foldlM_finalizeBlock (blocks : List Block) (s : Finalizing) :
    blocks.foldlM finalizeBlock s = (blocks.filterMap normalizeBlock).foldlM appendBlock s := by
  induction blocks generalizing s with
  | nil => rfl
  | cons block blocks ih =>
    cases hnorm : normalizeBlock block with
    | none =>
      have hskip : finalizeBlock s block = .ok s := by simp only [finalizeBlock, hnorm]
      rw [List.filterMap_cons_none hnorm, List.foldlM_cons, hskip]
      exact ih s
    | some kept =>
      have hkeep : finalizeBlock s block = appendBlock s kept := by
        simp only [finalizeBlock, hnorm]
      rw [List.filterMap_cons_some hnorm, List.foldlM_cons, List.foldlM_cons, hkeep]
      exact bind_congr ih

/-- **`finalize_document` sees only the normalised contents.** -/
theorem finalize_eq (blocks : List Block) (info : DocumentMeta) :
    finalizeDocument blocks info
      = ((blocks.filterMap normalizeBlock).foldlM appendBlock {}).map
          (Finalizing.document info) := by
  rw [finalizeDocument, foldlM_finalizeBlock]

/-- A block that is appended is one more block. -/
theorem appendBlock_length {s s' : Finalizing} {block : Block}
    (h : appendBlock s block = .ok s') : s'.kept.length = s.kept.length + 1 := by
  simp only [appendBlock] at h
  split at h
  · exact nomatch h
  · obtain rfl := Except.ok.inj h
    exact List.length_append

theorem foldlM_appendBlock_length {blocks : List Block} {s s' : Finalizing}
    (h : blocks.foldlM appendBlock s = .ok s') :
    s'.kept.length = s.kept.length + blocks.length := by
  induction blocks generalizing s with
  | nil =>
    obtain rfl := Except.ok.inj h
    rfl
  | cons block blocks ih =>
    rw [List.foldlM_cons] at h
    cases hblock : appendBlock s block with
    | error e =>
      rw [hblock] at h
      exact nomatch h
    | ok s₁ =>
      rw [hblock] at h
      rw [ih h, appendBlock_length hblock, List.length_cons]
      omega

/-- A finished document has one block for every block that is not blank. -/
theorem finalize_length {blocks : List Block} {info : DocumentMeta} {doc : NormalizedDocument}
    (h : finalizeDocument blocks info = .ok doc) :
    doc.blocks.length = (blocks.filterMap normalizeBlock).length := by
  rw [finalize_eq] at h
  cases hfold : (blocks.filterMap normalizeBlock).foldlM appendBlock {} with
  | error e =>
    rw [hfold] at h
    exact nomatch h
  | ok s =>
    rw [hfold] at h
    obtain rfl := Except.ok.inj h
    have hlength := foldlM_appendBlock_length hfold
    simpa [Finalizing.document] using hlength

/-- A text block is never longer than the limit once it is cut. -/
theorem blockChars_capBlock {block : Block} (h : block.rows = none) (index : Nat) :
    blockChars (capBlock index block).1 ≤ maxBlockChars := by
  simp only [capBlock, h]
  split
  · simp only [blockChars]
    exact List.length_take_le _ _
  · rename_i hlen
    simp only [blockChars, h]
    exact Nat.le_of_not_lt hlen

/-- One text block always makes a document. -/
theorem finalize_text_ok {block : Block} (info : DocumentMeta) (h : block.rows = none) :
    ∃ doc, finalizeDocument [block] info = .ok doc := by
  rw [finalize_eq]
  cases hnorm : normalizeBlock block with
  | none =>
    rw [List.filterMap_cons_none hnorm]
    exact ⟨_, rfl⟩
  | some kept =>
    have hrows : kept.rows = none := by
      simp only [normalizeBlock, h] at hnorm
      split at hnorm
      · exact nomatch hnorm
      · obtain rfl := Option.some.inj hnorm
        rfl
    have hfits : ¬ maxDocumentChars < 0 + blockChars (capBlock 0 kept).1 := by
      have hcap := blockChars_capBlock hrows 0
      simp only [maxDocumentChars, maxBlockChars] at hcap ⊢
      omega
    obtain ⟨s, hs⟩ : ∃ s, appendBlock {} kept = .ok s := by
      simp only [appendBlock, List.length_nil, hfits, if_false]
      exact ⟨_, rfl⟩
    refine ⟨s.document info, ?_⟩
    rw [List.filterMap_cons_some hnorm, List.filterMap_nil, List.foldlM_cons, hs]
    rfl

end AtlasKnowledge.Parsing
