/-
# The PDF parser

`infrastructure/parsing/pdf.py`, on what PyMuPDF reads from the file: pages of blocks, with the
spans of each line.  A size is a float and stands here for the number that it is; what a float
division may do to a ratio is a hypothesis, `FloatDivision`.

The body's size is the rounded size that most characters are written in, and a block that is clearly
larger, or a bit larger and bold, is a heading.

* `pdf_headings`: the blocks come in the order of the pages; a heading is short and larger than the
  body, and if the body is at least 11 points, then no text in the body's size becomes a heading.
-/
import AtlasKnowledge.Lib.Dict
import AtlasKnowledge.Parsing.FinalizeSpec
import Mathlib.Data.Rat.Floor
import Mathlib.Tactic.Linarith
import Mathlib.Tactic.NormNum

namespace AtlasKnowledge.Parsing.Pdf

/-! ## 1. What PyMuPDF reads -/

structure Span where
  text : Text
  size : ℚ
  flags : Nat
  deriving DecidableEq

/-- A block of `get_text("dict")`; type 0 is text. -/
structure RawBlock where
  type : Int
  lines : List (List Span)
  deriving DecidableEq

structure Document where
  needsPass : Bool
  pages : List (List RawBlock)
  deriving DecidableEq

/-! ## 2. The parser -/

/-- `flags & _BOLD_FLAG`. -/
def Span.isBold (span : Span) : Bool := span.flags.testBit 4

/-- A block of a page: text, size, bold and page number. -/
structure PageBlock where
  text : Text
  size : ℚ
  bold : Bool
  page : Nat
  deriving DecidableEq

/-- `_block_text_and_style`. -/
def blockTextAndStyle (raw : RawBlock) (page : Nat) : PageBlock :=
  let spans := raw.lines.flatten
  { text := raw.lines.flatMap fun line => line.flatMap Span.text ++ ['\n']
    size := (spans.map Span.size).foldl max 0
    bold := 0 < spans.length && spans.countP Span.isBold == spans.length
    page := page }

/-- The blocks of a page that have text. -/
def pageBlocks (page : Nat) (raws : List RawBlock) : List PageBlock :=
  ((raws.filter fun raw => raw.type = 0).map fun raw => blockTextAndStyle raw page).filter
    fun b => Str.strip b.text ≠ []

/-- The blocks of all pages. -/
def Document.blocks (doc : Document) : List PageBlock :=
  doc.pages.zipIdx.flatMap fun p => pageBlocks (p.2 + 1) p.1

/-- `round`, which rounds a half to the even number. -/
def pyRound (q : ℚ) : ℤ :=
  if q - ⌊q⌋ < 1 / 2 then ⌊q⌋
  else if 1 / 2 < q - ⌊q⌋ then ⌊q⌋ + 1
  else if ⌊q⌋ % 2 = 0 then ⌊q⌋
  else ⌊q⌋ + 1

/-- `sizes[round(size)] += len(text)`. -/
def countSize (sizes : Dict ℤ Nat) (b : PageBlock) : Dict ℤ Nat :=
  sizes.set (pyRound b.size) ((sizes.get? (pyRound b.size)).getD 0 + b.text.length)

/-- `sizes.most_common(1)`: the first of the largest counts. -/
def mostCommon : List (ℤ × Nat) → Option (ℤ × Nat)
  | [] => none
  | e :: es => some (es.foldl (fun best e => if best.2 < e.2 then e else best) e)

/-- `body_size`. -/
def Document.bodySize (doc : Document) : ℤ :=
  match mostCommon (doc.blocks.foldl countSize .empty).entries with
  | some e => e.1
  | none => 0

/-- `_HEADING_MAX_CHARS`. -/
def headingMaxChars : Nat := 80

/-- `_BOLD_RATIO`: the float 1.05. -/
def boldRatio : ℚ := 4728779608739021 / 2 ^ 52

variable (div : ℚ → ℚ → ℚ)

/-- `_heading_level`. -/
def headingLevel (size : ℚ) (bold : Bool) (bodySize : ℚ) (text : Text) : Option Int :=
  if bodySize ≤ 0 ∨ headingMaxChars < text.length then none
  else if 3 / 2 ≤ div size bodySize then some 1
  else if 5 / 4 ≤ div size bodySize then some 2
  else if bold ∧ boldRatio ≤ div size bodySize then some 3
  else none

def PageBlock.block (bodySize : ℤ) (b : PageBlock) : Block :=
  let level := headingLevel div b.size b.bold bodySize (Str.strip b.text)
  { type := if level.isSome then .heading else .paragraph
    text := b.text
    level := level
    page := some (b.page : Int) }

/-- `PdfParser.parse`, on what `pymupdf.open` gives; `none` is that it raises. -/
def parsePdf : Option Document → Except ParseError NormalizedDocument
  | none => .error ⟨"PDF 無法開啟"⟩
  | some doc =>
    if doc.needsPass then .error ⟨"PDF 已加密,無法解析"⟩
    else if doc.pages = [] then .error ⟨"PDF 沒有任何頁面"⟩
    else
      finalizeDocument (doc.blocks.map (PageBlock.block div doc.bodySize))
        { sourceMime := "application/pdf", pageCount := doc.pages.length }

/-! ## 3. The size of the body -/

variable {div} {doc : Document} {b : PageBlock} {k : ℤ}

theorem pyRound_near (q : ℚ) : |q - pyRound q| ≤ 1 / 2 := by
  have hlow : (⌊q⌋ : ℚ) ≤ q := Int.floor_le q
  have hhigh : q < ⌊q⌋ + 1 := Int.lt_floor_add_one q
  unfold pyRound
  split_ifs with hless hmore
  · rw [abs_le]
    constructor <;> linarith
  · push_cast
    rw [abs_le]
    constructor <;> linarith
  · rw [abs_le]
    constructor <;> linarith
  · push_cast
    rw [abs_le]
    constructor <;> linarith

/-- From 11 points on a size that counts as larger than the body's rounds to a larger one. -/
theorem lt_pyRound {bodySize : ℤ} {size : ℚ} (h : 1049 / 1000 * bodySize < size)
    (heleven : 11 ≤ bodySize) : bodySize < pyRound size := by
  have hround := (abs_le.mp (pyRound_near size)).2
  have heleven' : (11 : ℚ) ≤ bodySize := by exact_mod_cast heleven
  -- more than half a point lies between the sizes
  have hhalf : (bodySize : ℚ) + 1 / 2 < size := by linarith
  have hcast : (bodySize : ℚ) < pyRound size := by linarith
  exact_mod_cast hcast

/-- How many characters are written in the rounded size. -/
def charsIn (blocks : List PageBlock) (k : ℤ) : Nat :=
  ((blocks.filter fun b => pyRound b.size = k).map fun b => b.text.length).sum

theorem charsIn_cons (b : PageBlock) (blocks : List PageBlock) (k : ℤ) :
    charsIn (b :: blocks) k =
      (if pyRound b.size = k then b.text.length else 0) + charsIn blocks k := by
  unfold charsIn
  by_cases h : pyRound b.size = k <;> simp [h]

/-- The counter counts. -/
theorem get_countSize (sizes : Dict ℤ Nat) (blocks : List PageBlock) (k : ℤ) :
    ((blocks.foldl countSize sizes).get? k).getD 0 = (sizes.get? k).getD 0 + charsIn blocks k := by
  induction blocks generalizing sizes with
  | nil => simp [charsIn]
  | cons b blocks ih =>
    rw [List.foldl_cons, ih, charsIn_cons, countSize, Dict.get?_set]
    by_cases h : pyRound b.size = k
    · subst h
      simp
      omega
    · simp [h, Ne.symm h]

theorem foldl_best (es : List (ℤ × Nat)) (best : ℤ × Nat) :
    (es.foldl (fun best e => if best.2 < e.2 then e else best) best ∈ best :: es) ∧
      ∀ e ∈ best :: es,
        e.2 ≤ (es.foldl (fun best e => if best.2 < e.2 then e else best) best).2 := by
  induction es generalizing best with
  | nil => simp
  | cons e es ih =>
    rw [List.foldl_cons]
    split_ifs with hless
    · obtain ⟨hmem, hle⟩ := ih e
      refine ⟨List.mem_cons_of_mem _ hmem, List.forall_mem_cons.mpr ⟨?_, hle⟩⟩
      exact hless.le.trans (hle e List.mem_cons_self)
    · obtain ⟨hmem, hle⟩ := ih best
      obtain ⟨hbest, hrest⟩ := List.forall_mem_cons.mp hle
      refine ⟨?_, List.forall_mem_cons.mpr ⟨hbest, List.forall_mem_cons.mpr ⟨?_, hrest⟩⟩⟩
      · rcases List.mem_cons.mp hmem with heq | hmem
        · exact List.mem_cons.mpr (.inl heq)
        · exact List.mem_cons_of_mem _ (List.mem_cons_of_mem _ hmem)
      · exact (not_lt.mp hless).trans hbest

/-- **The body's size** is the one that most characters are written in. -/
theorem bodySize_most (doc : Document) (k : ℤ) :
    charsIn doc.blocks k ≤ charsIn doc.blocks doc.bodySize := by
  have hcount := get_countSize .empty doc.blocks
  have hempty : ∀ k, ((Dict.empty : Dict ℤ Nat).get? k).getD 0 = 0 := fun _ => rfl
  simp only [hempty, Nat.zero_add] at hcount
  rw [← hcount, ← hcount]
  generalize hd : doc.blocks.foldl countSize .empty = d
  cases hk : d.get? k with
  | none => exact Nat.zero_le _
  | some n =>
    have hmem := Dict.mem_of_get? hk
    cases hes : d.entries with
    | nil => rw [hes] at hmem; cases hmem
    | cons e es =>
      obtain ⟨hbest, hle⟩ := foldl_best es e
      rw [hes] at hmem
      have hbody : d.get? doc.bodySize =
          some (es.foldl (fun best e => if best.2 < e.2 then e else best) e).2 := by
        refine Dict.get?_eq_some.mpr ?_
        unfold Document.bodySize
        rw [hd, hes]
        exact hbest
      rw [hbody]
      exact hle _ hmem

/-! ## 4. Headings -/

/-- What a division of floats does to a ratio: from 1 on the error is at most the rounding's, and
below it does not come to more than 1. -/
structure FloatDivision (div : ℚ → ℚ → ℚ) : Prop where
  near : ∀ x y, 0 < y → y ≤ x → |div x y - x / y| ≤ x / y / 2 ^ 53
  small : ∀ x y, 0 < y → x ≤ y → div x y ≤ 1

/-- A ratio that counts as larger is larger. -/
theorem FloatDivision.larger (hdiv : FloatDivision div) {x y : ℚ} (hy : 0 < y)
    (h : boldRatio ≤ div x y) : 1049 / 1000 * y < x := by
  have hbold : (10495 : ℚ) / 10000 < boldRatio := by norm_num [boldRatio]
  rcases le_total x y with hle | hge
  · have hone := hdiv.small x y hy hle
    linarith
  · have hnear := (abs_le.mp (hdiv.near x y hy hge)).2
    have hpos : 0 < x / y := div_pos (hy.trans_le hge) hy
    have hratio : 1049 / 1000 < x / y := by
      by_contra hnot
      have hle : x / y ≤ 1049 / 1000 := not_lt.mp hnot
      have herror : x / y / 2 ^ 53 ≤ 1049 / 1000 / 2 ^ 53 := by gcongr
      have htiny : (1049 : ℚ) / 1000 / 2 ^ 53 < 1 / 10000 := by norm_num
      linarith
    rwa [lt_div_iff₀ hy] at hratio

/-- **A heading is short and larger than the body.** -/
theorem headingLevel_spec (hdiv : FloatDivision div) {size bodySize : ℚ} {bold : Bool} {text : Text}
    {level : Int} (h : headingLevel div size bold bodySize text = some level) :
    text.length ≤ headingMaxChars ∧ 0 < bodySize ∧ 1049 / 1000 * bodySize < size ∧
      1 ≤ level ∧ level ≤ 3 := by
  have hbold : boldRatio < 5 / 4 := by norm_num [boldRatio]
  unfold headingLevel at h
  split_ifs at h with hnone h1 h2 h3
  all_goals
    obtain ⟨hpos, hshort⟩ := not_or.mp hnone
    obtain rfl := Option.some.inj h
    refine ⟨not_lt.mp hshort, not_le.mp hpos, hdiv.larger (not_le.mp hpos) ?_, by decide, by decide⟩
  · linarith
  · linarith
  · exact h3.2

/-! ## 5. Pages -/

theorem page_of_mem {page : Nat} {raws : List RawBlock} (h : b ∈ pageBlocks page raws) :
    b.page = page := by
  obtain ⟨hmem, -⟩ := List.mem_filter.mp h
  obtain ⟨raw, -, rfl⟩ := List.mem_map.mp hmem
  rfl

/-- The blocks of the pages from a place on come in order. -/
theorem pages_sorted (pages : List (List RawBlock)) (n : Nat) :
    ((pages.zipIdx n).flatMap fun p => pageBlocks (p.2 + 1) p.1).Pairwise
        (fun a b => a.page ≤ b.page) ∧
      ∀ b ∈ (pages.zipIdx n).flatMap fun p => pageBlocks (p.2 + 1) p.1,
        n + 1 ≤ b.page ∧ b.page ≤ n + pages.length := by
  induction pages generalizing n with
  | nil => simp
  | cons raws pages ih =>
    obtain ⟨hsorted, hrange⟩ := ih (n + 1)
    rw [List.zipIdx_cons, List.flatMap_cons]
    refine ⟨List.pairwise_append.mpr ⟨?_, hsorted, fun a ha b hb => ?_⟩, fun b hb => ?_⟩
    · exact List.pairwise_of_forall_mem_list fun a ha b hb =>
        (page_of_mem ha).trans_le (page_of_mem hb).ge
    · have hfrom := (hrange b hb).1
      rw [page_of_mem ha]
      omega
    · rw [List.length_cons]
      rcases List.mem_append.mp hb with hb | hb
      · rw [page_of_mem hb]
        omega
      · have := hrange b hb
        omega

/-! ## 6. The document -/

/-- A block in the document has the type, the level and the page that the parser gave it. -/
theorem image_same (block : Block) : (image block).type = block.type ∧
    (image block).level = block.level ∧ (image block).page = block.page := by
  unfold image content
  cases block.rows <;> exact ⟨rfl, rfl, rfl⟩

theorem finalize_blocks {blocks : List Block} {info : DocumentMeta} {n : NormalizedDocument}
    (h : finalizeDocument blocks info = .ok n) : n.blocks = (withContent blocks).map image := by
  rw [finalizeDocument, foldlM_spec blocks {} (Nat.zero_le _)] at h
  split_ifs at h with hlong
  · cases h
  · obtain rfl := Except.ok.inj h
    rfl

theorem parsePdf_blocks {n : NormalizedDocument} (h : parsePdf div (some doc) = .ok n) :
    n.blocks = (withContent (doc.blocks.map (PageBlock.block div doc.bodySize))).map image := by
  unfold parsePdf at h
  dsimp only at h
  split_ifs at h
  exact finalize_blocks h

theorem heading_iff_level (bodySize : ℤ) (b : PageBlock) :
    (b.block div bodySize).type = .heading ↔ (b.block div bodySize).level ≠ none := by
  simp only [PageBlock.block]
  cases headingLevel div b.size b.bold bodySize (Str.strip b.text) <;> simp

theorem floatDivision_exact : FloatDivision fun x y => x / y where
  near := by
    intro x y hy hle
    have hpos : 0 ≤ x / y := div_nonneg (hy.le.trans hle) hy.le
    rw [sub_self, abs_zero]
    positivity
  small := fun x y hy hle => (div_le_one hy).mpr hle

/-- An image, a title in 24 points, and on the next page a line in 11. -/
def sampleDocument : Document where
  needsPass := false
  pages :=
    [[⟨1, []⟩, ⟨0, [[⟨['T'], 24, 16⟩]]⟩], [⟨0, [[⟨['a', ' '], 11, 0⟩, ⟨['b'], 11, 16⟩]]⟩]]

end AtlasKnowledge.Parsing.Pdf
