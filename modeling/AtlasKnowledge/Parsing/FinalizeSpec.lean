/-
# What `finalize_document` returns

The loop drops, cuts, counts and numbers the blocks in one pass.  What comes out can be said block
by block: the blocks with content, each cut to the limit (`image`), and one warning for each that
lost something to the cut, at its place among them.

* `longest_spec`: the rows that a table keeps;
* `finalize_spec`: the document, or the error, of any blocks and any meta;
* `not_absent`: a meta that has the key already keeps it.
-/
import AtlasKnowledge.Parsing.Blocks
import Mathlib.Data.Nat.Find

namespace AtlasKnowledge.Parsing

variable {rows kept rest p q : List (List Text)} {block : Block} {info : DocumentMeta}

/-! ## 1. Prefixes of a table -/

/-- The characters of some rows. -/
def chars (rows : List (List Text)) : Nat := (rows.map rowChars).sum

/-- The longest prefix within the limit, but at least the first row. -/
def longest (rows : List (List Text)) : List (List Text) :=
  rows.take (max 1 (Nat.findGreatest (fun k => chars (rows.take k) ≤ maxBlockChars) rows.length))

/-- `p` is a prefix of the rows within the limit, or one row of them, and no prefix within the limit
is longer. -/
structure IsLongest (rows p : List (List Text)) : Prop where
  isPrefix : p <+: rows
  some_row : rows ≠ [] → p ≠ []
  fits : chars p ≤ maxBlockChars ∨ p.length ≤ 1
  longest : ∀ q, q <+: rows → chars q ≤ maxBlockChars → q.length ≤ p.length

theorem chars_append (rows more : List (List Text)) :
    chars (rows ++ more) = chars rows + chars more := by
  rw [chars, List.map_append, List.sum_append]
  rfl

theorem chars_mono (h : p <+: q) : chars p ≤ chars q := by
  obtain ⟨more, rfl⟩ := h
  rw [chars_append]
  exact Nat.le_add_right _ _

theorem IsLongest.length_le (h : IsLongest rows p) (h' : IsLongest rows q) :
    q.length ≤ p.length := by
  rcases h'.fits with hfits | hone
  · exact h.longest q h'.isPrefix hfits
  · cases rows with
    | nil =>
      rw [List.prefix_nil.mp h'.isPrefix]
      exact Nat.zero_le _
    | cons row rows =>
      exact hone.trans (List.length_pos_iff.mpr (h.some_row (List.cons_ne_nil row rows)))

theorem IsLongest.unique (h : IsLongest rows p) (h' : IsLongest rows q) : p = q :=
  (List.prefix_of_prefix_length_le h.isPrefix h'.isPrefix (h'.length_le h)).eq_of_length
    (Nat.le_antisymm (h'.length_le h) (h.length_le h'))

/-- **`longest` is what it is called.** -/
theorem longest_spec (rows : List (List Text)) : IsLongest rows (longest rows) := by
  have hfits : chars (rows.take (Nat.findGreatest
      (fun k => chars (rows.take k) ≤ maxBlockChars) rows.length)) ≤ maxBlockChars :=
    @Nat.findGreatest_spec 0 (fun k => chars (rows.take k) ≤ maxBlockChars) _ _ (Nat.zero_le _)
      (Nat.zero_le _)
  unfold longest
  generalize hk : Nat.findGreatest
    (fun k => chars (rows.take k) ≤ maxBlockChars) rows.length = k at hfits ⊢
  refine ⟨List.take_prefix _ _, fun hne hnil => ?_, ?_, fun q hq hchars => ?_⟩
  · rcases List.take_eq_nil_iff.mp hnil with hzero | hrows
    · omega
    · exact hne hrows
  · rcases Nat.lt_or_ge k 2 with hsmall | hlarge
    · exact .inr ((List.length_take_le _ _).trans (by omega))
    · exact .inl (by rwa [Nat.max_eq_right (by omega)])
  · have hle : q.length ≤ k := by
      rw [← hk]
      refine Nat.le_findGreatest hq.length_le ?_
      rwa [← List.prefix_iff_eq_take.mp hq]
    have hlength := hq.length_le
    rw [List.length_take]
    omega

/-- The loop, from the rows that it has kept. -/
theorem capRowsFrom_spec (kept rest : List (List Text))
    (h : chars kept ≤ maxBlockChars ∨ kept.length ≤ 1) :
    IsLongest (kept ++ rest) (capRowsFrom kept (chars kept) rest).1 ∧
      ((capRowsFrom kept (chars kept) rest).2 = true ↔
        (capRowsFrom kept (chars kept) rest).1 ≠ kept ++ rest) := by
  induction rest generalizing kept with
  | nil =>
    rw [List.append_nil, capRowsFrom]
    exact ⟨⟨List.prefix_rfl, id, h, fun q hq _ => hq.length_le⟩, by simp⟩
  | cons row rest ih =>
    have hrow : chars kept + rowChars row = chars (kept ++ [row]) := by
      rw [chars_append]
      rfl
    have hrows : kept ++ row :: rest = (kept ++ [row]) ++ rest := by simp
    simp only [capRowsFrom, hrow]
    split_ifs with hover
    · refine ⟨⟨List.prefix_append _ _, fun _ => hover.2, h, fun q hq hchars => ?_⟩, by simp⟩
      -- a longer prefix would have the row
      refine le_of_not_gt fun hlong : kept.length < q.length => ?_
      have hprefix : kept ++ [row] <+: q := by
        refine List.prefix_of_prefix_length_le ?_ hq ?_
        · rw [hrows]
          exact List.prefix_append _ _
        · rw [List.length_append, List.length_singleton]
          omega
      exact absurd ((chars_mono hprefix).trans hchars) (not_le.mpr hover.1)
    · rw [hrows]
      refine ih _ ?_
      rcases not_and_or.mp hover with hfits | hnil
      · exact .inl (not_lt.mp hfits)
      · rw [not_ne_iff.mp hnil]
        exact .inr (Nat.le_refl 1)

/-- **`_cap_rows` keeps the longest prefix**, and says whether that is all. -/
theorem capRows_eq (rows : List (List Text)) :
    capRows rows = (longest rows, decide (longest rows ≠ rows)) := by
  obtain ⟨hlongest, hcut⟩ := capRowsFrom_spec [] rows (.inl (Nat.zero_le _))
  rw [List.nil_append] at hlongest hcut
  have hrows : (capRows rows).1 = longest rows := hlongest.unique (longest_spec rows)
  refine Prod.ext hrows ?_
  rw [Bool.eq_iff_iff, decide_eq_true_iff, ← hrows]
  exact hcut

/-! ## 2. Blocks -/

/-- What is left of a block when its content is normalised. -/
inductive Content where
  | text (text : Text)
  | table (rows : List (List Text))
  deriving DecidableEq, Repr

/-- The rows that have text in some cell, normalised. -/
def textRows (rows : List (List Text)) : List (List Text) :=
  (rows.map (List.map normalizeText)).filter fun row => ¬ ∀ cell ∈ row, cell = []

/-- The normalised content. -/
def content (block : Block) : Content :=
  match block.rows with
  | some rows => .table (textRows rows)
  | none => .text (normalizeText block.text)

/-- Nothing is left of the block. -/
def Content.isEmpty : Content → Bool
  | .text t => t.isEmpty
  | .table rows => rows.isEmpty

/-- The content within the limit. -/
def Content.cap : Content → Content
  | .text t => .text (t.take maxBlockChars)
  | .table rows => .table (longest rows)

/-- The length that counts. -/
def Content.length : Content → Nat
  | .text t => t.length
  | .table rows => chars rows

/-- The block with another content. -/
def Content.put (block : Block) : Content → Block
  | .text t => { block with text := t }
  | .table rows => { block with rows := some rows, text := [] }

/-- The block in the document. -/
def image (block : Block) : Block := (content block).cap.put block

/-- The warning for a place. -/
def Content.warning (index : Nat) : Content → Warning
  | .text _ => .blockTruncated index
  | .table _ => .tableTruncated index

/-- The blocks that have content. -/
def withContent (blocks : List Block) : List Block :=
  blocks.filter fun block => !(content block).isEmpty

/-- One entry for each block that lost content to the limit, with its place. -/
def warningsFrom (index : Nat) (blocks : List Block) : List Warning :=
  ((blocks.zipIdx index).filter fun b => (content b.1).cap ≠ content b.1).map
    fun b => (content b.1).warning b.2

/-- The lengths of the images. -/
def totalLength (blocks : List Block) : Nat :=
  (blocks.map fun block => (content block).cap.length).sum

/-- `_normalize_rows` keeps them. -/
theorem normalizeRows_eq (rows : List (List Text)) : normalizeRows rows = textRows rows := by
  refine List.filter_congr fun row _ => ?_
  rw [Bool.eq_iff_iff]
  simp

theorem content_eq (block : Block) : content block =
    match block.rows with
    | some rows => .table (normalizeRows rows)
    | none => .text (normalizeText block.text) := by
  unfold content
  split
  · rw [normalizeRows_eq]
  · rfl

/-- A block without content is passed over. -/
theorem normalizeBlock_empty (h : (content block).isEmpty = true) :
    normalizeBlock block = none := by
  rw [content_eq] at h
  unfold normalizeBlock
  split at h
  · rename_i rows hrows
    simp only [hrows]
    exact if_pos (List.isEmpty_iff.mp h)
  · rename_i hrows
    simp only [hrows]
    exact if_pos (List.isEmpty_iff.mp h)

/-- Any other one has its content put into it. -/
theorem normalizeBlock_content (h : (content block).isEmpty = false) :
    normalizeBlock block = some ((content block).put block) := by
  rw [content_eq] at h ⊢
  unfold normalizeBlock
  split at h
  · rename_i rows hrows
    simp only [hrows, Content.put]
    exact if_neg (by simpa [Content.isEmpty] using h)
  · rename_i hrows
    simp only [hrows, Content.put]
    exact if_neg (by simpa [Content.isEmpty] using h)

/-- **What the cap does to a block**, and its warning. -/
theorem capBlock_put (index : Nat) (block : Block) :
    capBlock index ((content block).put block) =
      (image block,
        if (content block).cap ≠ content block then [(content block).warning index] else []) := by
  rw [image, content_eq]
  cases hrows : block.rows with
  | some rows => simp [Content.put, Content.cap, Content.warning, capBlock, capRows_eq]
  | none =>
    by_cases hlong : maxBlockChars < (normalizeText block.text).length
    · have hcut : (normalizeText block.text).take maxBlockChars ≠ normalizeText block.text := by
        intro heq
        have hlength := congrArg List.length heq
        rw [List.length_take] at hlength
        omega
      simp [Content.put, Content.cap, Content.warning, capBlock, hrows, hlong, hcut]
    · have hsame : (normalizeText block.text).take maxBlockChars = normalizeText block.text :=
        List.take_of_length_le (not_lt.mp hlong)
      simp [Content.put, Content.cap, capBlock, hrows, hlong, hsame]

theorem blockChars_image (block : Block) :
    blockChars (image block) = (content block).cap.length := by
  rw [image, content_eq]
  cases hrows : block.rows with
  | some rows => simp [Content.put, Content.cap, Content.length, blockChars, chars]
  | none => simp [Content.put, Content.cap, Content.length, blockChars, hrows]

/-! ## 3. The loop -/

/-- One turn of the loop for a block with content. -/
theorem finalizeBlock_content (s : Finalizing) (h : (content block).isEmpty = false) :
    finalizeBlock s block =
      if maxDocumentChars < s.total + (content block).cap.length then .error tooLong
      else .ok
        { kept := s.kept ++ [image block]
          warnings := s.warnings ++ warningsFrom s.kept.length [block]
          total := s.total + (content block).cap.length } := by
  have hwarning : warningsFrom s.kept.length [block] =
      if (content block).cap ≠ content block then [(content block).warning s.kept.length]
      else [] := by
    unfold warningsFrom
    split_ifs with hcut
    · simp [hcut]
    · simp [hcut]
  simp only [finalizeBlock, normalizeBlock_content h, appendBlock, capBlock_put, blockChars_image,
    hwarning]

theorem warningsFrom_cons (index : Nat) (block : Block) (blocks : List Block) :
    warningsFrom index (block :: blocks)
      = warningsFrom index [block] ++ warningsFrom (index + 1) blocks := by
  unfold warningsFrom
  rw [← List.map_append, ← List.filter_append]
  rfl

/-- **The loop**, from any place in it. -/
theorem foldlM_spec (blocks : List Block) (s : Finalizing) (h : s.total ≤ maxDocumentChars) :
    blocks.foldlM finalizeBlock s =
      if maxDocumentChars < s.total + totalLength (withContent blocks) then .error tooLong
      else .ok
        { kept := s.kept ++ (withContent blocks).map image
          warnings := s.warnings ++ warningsFrom s.kept.length (withContent blocks)
          total := s.total + totalLength (withContent blocks) } := by
  induction blocks generalizing s with
  | nil =>
    have hnone : s.kept ++ (withContent []).map image = s.kept := List.append_nil _
    have hsilent : s.warnings ++ warningsFrom s.kept.length (withContent []) = s.warnings :=
      List.append_nil _
    have htotal : s.total + totalLength (withContent []) = s.total := rfl
    rw [hnone, hsilent, htotal, if_neg (not_lt.mpr h)]
    rfl
  | cons block blocks ih =>
    cases hempty : (content block).isEmpty with
    | true =>
      have hkept : withContent (block :: blocks) = withContent blocks := by
        simp [withContent, hempty]
      have hskip : finalizeBlock s block = .ok s := by
        simp only [finalizeBlock, normalizeBlock_empty hempty]
      rw [List.foldlM_cons, hskip, hkept]
      exact ih s h
    | false =>
      have hkept : withContent (block :: blocks) = block :: withContent blocks := by
        simp [withContent, hempty]
      have htotal : totalLength (block :: withContent blocks)
          = (content block).cap.length + totalLength (withContent blocks) := rfl
      rw [List.foldlM_cons, finalizeBlock_content s hempty, hkept, htotal]
      by_cases hover : maxDocumentChars < s.total + (content block).cap.length
      · rw [if_pos hover, if_pos (by omega)]
        rfl
      · rw [if_neg hover]
        refine (ih _ (not_lt.mp hover)).trans ?_
        rw [warningsFrom_cons s.kept.length block (withContent blocks)]
        simp only [List.length_append, List.length_singleton, List.map_cons, List.append_assoc,
          List.singleton_append, Nat.add_assoc]

/-! ## 4. The result -/

/-- **`finalize_document` is its specification.**  It raises the error exactly if the images are too
long together.  Otherwise it returns the images of the blocks that have content, in order, and the
meta with a warning for each block that was cut; without such a block the meta is as it was given.
An image has the type, the level and the page of its block, and the longest part of its content
that the limit allows. -/
theorem finalize_spec (blocks : List Block) (info : DocumentMeta) :
    finalizeDocument blocks info =
        (if maxDocumentChars < totalLength (withContent blocks) then .error tooLong
        else .ok
          { blocks := (withContent blocks).map image
            info :=
              if warningsFrom 0 (withContent blocks) = [] then info
              else { info with warnings := some (warningsFrom 0 (withContent blocks)) } }) ∧
      ∀ block : Block,
        (image block).type = block.type ∧ (image block).level = block.level ∧
        (image block).page = block.page ∧
        match block.rows with
        | none =>
          image block = { block with text := (normalizeText block.text).take maxBlockChars }
        | some rows => ∃ kept, image block = { block with rows := some kept, text := [] } ∧
            IsLongest (textRows rows) kept := by
  constructor
  · rw [finalizeDocument, foldlM_spec blocks {} (Nat.zero_le _)]
    simp only [Nat.zero_add, List.nil_append, List.length_nil]
    split_ifs <;> simp_all [Except.map, Finalizing.document]
  · intro block
    unfold image content
    cases hrows : block.rows with
    | none =>
      refine ⟨rfl, rfl, rfl, ?_⟩
      simp only [Content.cap, Content.put, hrows]
    | some rows =>
      refine ⟨rfl, rfl, rfl, ?_⟩
      exact ⟨longest (textRows rows), rfl, longest_spec _⟩

/-- A meta with the key: nothing was cut, and the key is there. -/
theorem not_absent : warningsFrom 0 (withContent []) = [] ∧
    ∃ doc, finalizeDocument [] { warnings := some [.blockTruncated 0] } = .ok doc ∧
      doc.info.warnings ≠ none := by
  exact ⟨rfl, _, rfl, by decide⟩

end AtlasKnowledge.Parsing
