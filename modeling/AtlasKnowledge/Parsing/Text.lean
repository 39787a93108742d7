/-
# Plain text and Markdown

`infrastructure/parsing/text.py`: the encoding chain, the paragraph splitter that both parsers
use, and the two parsers.

Strict UTF-8 is Lean's own decoder; the decoder of cp950, a table, is a parameter.  Text that is
encoded in UTF-8 never reaches it (`decodeText_utf8`).
-/
import AtlasKnowledge.Lib.Utf8
import AtlasKnowledge.Parsing.Blocks

namespace AtlasKnowledge.Parsing

open Scan Str

/-! ## 1. Decoding -/

/-- `bytes.decode("utf-8")`, strict; `none` is a `UnicodeDecodeError`. -/
def utf8Decode (data : Bytes) : Option Text := data.toByteArray.utf8Decode?.map Array.toList

/-- `codecs.BOM_UTF8`. -/
def bomUtf8 : Bytes := [0xef, 0xbb, 0xbf]

/-- The encodings that are tried. -/
inductive Encoding where
  | utf8Sig | utf8 | cp950
  deriving DecidableEq, Repr

def Encoding.name : Encoding → String
  | .utf8Sig => "utf-8-sig"
  | .utf8 => "utf-8"
  | .cp950 => "cp950"

/-- `_ENCODING_CHAIN`. -/
def encodingChain : List Encoding := [.utf8Sig, .utf8, .cp950]

/-- `data.decode(encoding)`. -/
def decode (cp950 : Bytes → Option Text) (data : Bytes) : Encoding → Option Text
  | .utf8Sig => utf8Decode (if bomUtf8.isPrefixOf data then data.drop bomUtf8.length else data)
  | .utf8 => utf8Decode data
  | .cp950 => cp950 data

/-- The error when none of them fits. -/
def undecodable : ParseError :=
  let names := String.intercalate "/" (encodingChain.map Encoding.name)
  ⟨s!"無法以 {names} 解碼文字檔"⟩

/-- `decode_text`. -/
def decodeText (cp950 : Bytes → Option Text) (data : Bytes) : Except ParseError Text :=
  match encodingChain.findSome? (decode cp950 data) with
  | some text => .ok text
  | none => .error undecodable

/-! ## 2. Paragraphs -/

/-- `[ \t]`. -/
def isBlank (c : Char) : Bool := c = ' ' ∨ c = '\t'

/-- `_PARAGRAPH_SPLIT`, the pattern `\n[ \t]*\n`: the length of the match at the head. -/
def paragraphSplit : Text → Nat
  | '\n' :: t =>
    match t.dropWhile isBlank with
    | '\n' :: _ => (t.takeWhile isBlank).length + 2
    | _ => 0
  | _ => 0

/-- A paragraph, as it stands. -/
def paragraph (part : Text) : Block := { type := .paragraph, text := part }

/-- `_paragraph_blocks`. -/
def paragraphBlocks (text : Text) : List Block := (split paragraphSplit text).map paragraph

/-- `PlainTextParser.parse`. -/
def PlainTextParser.parse (cp950 : Bytes → Option Text) (data : Bytes) :
    Except ParseError NormalizedDocument := do
  let text ← decodeText cp950 data
  finalizeDocument (paragraphBlocks text) { sourceMime := "text/plain" }

/-! ## 3. Markdown -/

/-- `_ATX_HEADING`, the pattern `^(#{1,6})\s+(.*)$`, on a line: its level and its text. -/
def atxHeading (line : Text) : Option (Nat × Text) :=
  let level := (line.takeWhile (· = '#')).length
  let rest := line.drop level
  let text := rest.dropWhile isSpace
  if 1 ≤ level ∧ level ≤ 6 ∧ text.length < rest.length then some (level, text) else none

/-- `_FENCE`. -/
def fence : Text := ['`', '`', '`']

/-- `"\n".join(lines)`. -/
def joinLines (lines : List Text) : Text := List.intercalate ['\n'] lines

/-- The locals of `MarkdownParser.parse`. -/
structure MarkdownState where
  blocks : List Block := []
  buffer : List Text := []
  fenceLines : Option (List Text) := none

/-- `flush_paragraph`. -/
def flushParagraph (s : MarkdownState) : MarkdownState :=
  if s.buffer = [] then s
  else { s with blocks := s.blocks ++ paragraphBlocks (joinLines s.buffer), buffer := [] }

/-- The lines of a fence. -/
def codeBlock (lines : List Text) : Block := { type := .code, text := joinLines lines }

/-- The loop body. -/
def markdownLine (s : MarkdownState) (line : Text) : MarkdownState :=
  if fence.isPrefixOf (strip line) then
    match s.fenceLines with
    | none => { flushParagraph s with fenceLines := some [] }
    | some lines => { s with blocks := s.blocks ++ [codeBlock lines], fenceLines := none }
  else
    match s.fenceLines with
    | some lines => { s with fenceLines := some (lines ++ [line]) }
    | none =>
      match atxHeading line with
      | some (level, text) =>
        let s := flushParagraph s
        { s with blocks := s.blocks ++ [{ type := .heading, text := text, level := some level }] }
      | none =>
        if strip line = [] then flushParagraph s else { s with buffer := s.buffer ++ [line] }

/-- After the loop: a fence that was never closed keeps its lines. -/
def closeFence (s : MarkdownState) : MarkdownState :=
  match s.fenceLines with
  | some lines => { s with blocks := s.blocks ++ [codeBlock lines] }
  | none => s

def markdownBlocks (text : Text) : List Block :=
  (flushParagraph (closeFence ((text.splitOn '\n').foldl markdownLine {}))).blocks

/-- `MarkdownParser.parse`. -/
def MarkdownParser.parse (cp950 : Bytes → Option Text) (data : Bytes) :
    Except ParseError NormalizedDocument := do
  let text ← decodeText cp950 data
  finalizeDocument (markdownBlocks (replaceNewlines text)) { sourceMime := "text/markdown" }

/-! ## 4. Blank lines -/

/-- What the pattern matches. -/
theorem paragraphSplit_blankLine {ws : Text} (hws : ∀ c ∈ ws, isBlank c = true) (rest : Text) :
    paragraphSplit ('\n' :: ws ++ '\n' :: rest) = ws.length + 2 := by
  have hlf : isBlank '\n' = false := by decide
  simp only [List.cons_append, paragraphSplit]
  rw [List.dropWhile_append_of_pos hws, List.takeWhile_append_of_pos hws]
  simp [hlf]

/-- ... and nothing else. -/
theorem paragraphSplit_hit {s : Text} (h : paragraphSplit s ≠ 0) :
    ∃ ws rest, s = '\n' :: ws ++ '\n' :: rest ∧ (∀ c ∈ ws, isBlank c = true) := by
  unfold paragraphSplit at h
  split at h
  · rename_i t
    split at h
    · rename_i rest hrest
      refine ⟨t.takeWhile isBlank, rest, ?_, fun c hc => List.mem_takeWhile_imp hc⟩
      rw [← hrest, List.cons_append, List.takeWhile_append_dropWhile]
    · exact absurd rfl h
  · exact absurd rfl h

theorem paragraphSplit_le (s : Text) : paragraphSplit s ≤ s.length := by
  by_cases h : paragraphSplit s = 0
  · rw [h]
    exact Nat.zero_le _
  · obtain ⟨ws, rest, rfl, hws⟩ := paragraphSplit_hit h
    rw [paragraphSplit_blankLine hws]
    simp only [List.cons_append, List.length_cons, List.length_append]
    omega

/-! ## 5. UTF-8 text -/

/-- The text without the byte order mark that `utf-8-sig` takes off. -/
def dropBom : Text → Text
  | '\ufeff' :: t => t
  | t => t

theorem utf8Decode_encode (text : Text) : utf8Decode (Utf8.encode text) = some text := by
  have h : (Utf8.encode text).toByteArray = List.utf8Encode text := rfl
  rw [utf8Decode, h, List.utf8Decode?_utf8Encode]
  rfl

/-- The bytes begin with a mark if and only if the text does. -/
theorem bom_prefix_iff (text : Text) :
    bomUtf8 <+: Utf8.encode text ↔ ∃ t, text = '\ufeff' :: t := by
  have hbom : Utf8.encode ['\ufeff'] = bomUtf8 := by decide
  constructor
  · rintro ⟨b, hb⟩
    have hbytes : List.utf8Encode text = List.utf8Encode ['\ufeff'] ++ b.toByteArray := by
      change (Utf8.encode text).toByteArray = (Utf8.encode ['\ufeff']).toByteArray ++ b.toByteArray
      rw [← hb, hbom, List.toByteArray_append]
    obtain ⟨t, ht⟩ := List.isPrefix_of_utf8Encode_append_eq_utf8Encode _ hbytes.symm
    exact ⟨t, ht.symm⟩
  · rintro ⟨t, rfl⟩
    rw [← hbom]
    exact ⟨Utf8.encode t, rfl⟩

/-- **UTF-8 text is decoded as it is**, but for a byte order mark. -/
theorem decodeText_utf8 (cp950 : Bytes → Option Text) (text : Text) :
    decodeText cp950 (Utf8.encode text) = .ok (dropBom text) := by
  have hsig : decode cp950 (Utf8.encode text) .utf8Sig = some (dropBom text) := by
    by_cases hbom : bomUtf8 <+: Utf8.encode text
    · obtain ⟨t, rfl⟩ := (bom_prefix_iff text).mp hbom
      have hdrop : (Utf8.encode ('\ufeff' :: t)).drop bomUtf8.length = Utf8.encode t := rfl
      rw [decode, if_pos (List.isPrefixOf_iff_prefix.mpr hbom), hdrop, utf8Decode_encode]
      rfl
    · have hsame : dropBom text = text := by
        unfold dropBom
        split
        · rename_i t
          exact absurd ((bom_prefix_iff _).mpr ⟨t, rfl⟩) hbom
        · rfl
      rw [decode, if_neg (by rwa [List.isPrefixOf_iff_prefix]), utf8Decode_encode, hsame]
  have hchain :
      encodingChain.findSome? (decode cp950 (Utf8.encode text)) = some (dropBom text) := by
    rw [encodingChain, List.findSome?_cons, hsig]
  simp only [decodeText, hchain]

end AtlasKnowledge.Parsing
