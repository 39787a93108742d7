/-
# What is in a finished document

Every block that `finalize_document` keeps has content: a text block starts with a character that
is not white space, and so has each row of a table a cell.
-/
import AtlasKnowledge.Parsing.Blocks

namespace AtlasKnowledge.Parsing

open Str

/-- A cell of a finished table: empty, or with more than white space. -/
def CellTrimmed (cell : Text) : Prop := cell ≠ [] → nonSpace cell ≠ []

/-- A block of a finished document. -/
def Finalized (block : Block) : Prop :=
  match block.rows with
  | some rows =>
    block.text = [] ∧ ∀ row ∈ rows, (∃ cell ∈ row, cell ≠ []) ∧ ∀ cell ∈ row, CellTrimmed cell
  | none => ∃ c text, block.text = c :: text ∧ isSpace c = false

variable {block : Block} {index : Nat}

/-- A stripped text starts with a character that is not white space. -/
theorem head_strip {s : Text} (h : strip s ≠ []) :
    ∃ c text, strip s = c :: text ∧ isSpace c = false := by
  have hprefix := List.rdropWhile_prefix isSpace (s.dropWhile isSpace)
  obtain ⟨c, text, hstrip⟩ := List.exists_cons_of_ne_nil h
  refine ⟨c, text, hstrip, ?_⟩
  obtain ⟨rest, hrest⟩ := hprefix
  have hhead : s.dropWhile isSpace = c :: (text ++ rest) := by
    rw [← hrest, ← List.cons_append, ← hstrip]
    rfl
  have hne : s.dropWhile isSpace ≠ [] := by
    rw [hhead]
    exact List.cons_ne_nil _ _
  have hnot := List.head_dropWhile_not isSpace hne
  simpa only [hhead, List.head_cons] using hnot

theorem normalizeText_trimmed (raw : Text) : CellTrimmed (normalizeText raw) :=
  fun h => nonSpace_strip_ne_nil h

theorem normalizeRows_spec {rows : List (List Text)} :
    ∀ row ∈ normalizeRows rows, (∃ cell ∈ row, cell ≠ []) ∧ ∀ cell ∈ row, CellTrimmed cell := by
  intro row hrow
  obtain ⟨hmap, hany⟩ := List.mem_filter.mp hrow
  obtain ⟨raw, -, rfl⟩ := List.mem_map.mp hmap
  obtain ⟨cell, hcell, hne⟩ := List.any_eq_true.mp hany
  refine ⟨⟨cell, hcell, of_decide_eq_true hne⟩, ?_⟩
  intro cell hcell
  obtain ⟨text, -, rfl⟩ := List.mem_map.mp hcell
  exact normalizeText_trimmed text

/-- The rows that are kept are rows of the table. -/
theorem mem_capRowsFrom {kept rows : List (List Text)} {total : Nat} {row : List Text}
    (h : row ∈ (capRowsFrom kept total rows).1) : row ∈ kept ∨ row ∈ rows := by
  induction rows generalizing kept total with
  | nil => exact .inl h
  | cons next rows ih =>
    rw [capRowsFrom] at h
    split_ifs at h
    · exact .inl h
    · rcases ih h with h | h
      · rcases List.mem_append.mp h with h | h
        · exact .inl h
        · exact .inr (List.mem_cons.mpr (.inl (List.mem_singleton.mp h)))
      · exact .inr (List.mem_cons_of_mem _ h)

theorem finalized_normalizeBlock {block' : Block} (h : normalizeBlock block = some block') :
    Finalized block' := by
  unfold normalizeBlock at h
  cases hrows : block.rows with
  | some rows =>
    simp only [hrows] at h
    split_ifs at h
    obtain rfl := Option.some.inj h
    exact ⟨rfl, normalizeRows_spec⟩
  | none =>
    simp only [hrows] at h
    split_ifs at h with htext
    obtain rfl := Option.some.inj h
    simp only [Finalized]
    exact head_strip htext

/-- Cutting a block leaves it one of a finished document. -/
theorem finalized_capBlock (h : Finalized block) : Finalized (capBlock index block).1 := by
  unfold Finalized at h
  cases hrows : block.rows with
  | some rows =>
    simp only [hrows] at h
    simp only [capBlock, hrows, Finalized]
    refine ⟨h.1, fun row hrow => ?_⟩
    rcases mem_capRowsFrom hrow with hnil | hmem
    · exact absurd hnil List.not_mem_nil
    · exact h.2 row hmem
  | none =>
    simp only [hrows] at h
    obtain ⟨c, text, htext, hspace⟩ := h
    simp only [capBlock, hrows]
    split_ifs
    · simp only [Finalized]
      exact ⟨c, text.take (maxBlockChars - 1), by rw [htext]; rfl, hspace⟩
    · simp only [Finalized, hrows]
      exact ⟨c, text, htext, hspace⟩

theorem foldlM_appendBlock_finalized {blocks : List Block} {s s' : Finalizing}
    (hblocks : ∀ block ∈ blocks, Finalized block) (hkept : ∀ block ∈ s.kept, Finalized block)
    (h : blocks.foldlM appendBlock s = .ok s') : ∀ block ∈ s'.kept, Finalized block := by
  induction blocks generalizing s with
  | nil =>
    obtain rfl := Except.ok.inj h
    exact hkept
  | cons block blocks ih =>
    obtain ⟨hblock, hblocks⟩ := List.forall_mem_cons.mp hblocks
    rw [List.foldlM_cons] at h
    cases hstep : appendBlock s block with
    | error e =>
      rw [hstep] at h
      exact nomatch h
    | ok s₁ =>
      rw [hstep] at h
      refine ih hblocks ?_ h
      simp only [appendBlock] at hstep
      split_ifs at hstep
      obtain rfl := Except.ok.inj hstep
      intro block' hmem
      rcases List.mem_append.mp hmem with hmem | hmem
      · exact hkept block' hmem
      · obtain rfl := List.mem_singleton.mp hmem
        exact finalized_capBlock hblock

/-- **Every block of a finished document has content.** -/
theorem finalized {blocks : List Block} {info : DocumentMeta} {doc : NormalizedDocument}
    (h : finalizeDocument blocks info = .ok doc) : ∀ block ∈ doc.blocks, Finalized block := by
  rw [finalize_eq] at h
  cases hfold : (blocks.filterMap normalizeBlock).foldlM appendBlock {} with
  | error e =>
    rw [hfold] at h
    exact nomatch h
  | ok s =>
    rw [hfold] at h
    obtain rfl := Except.ok.inj h
    refine foldlM_appendBlock_finalized ?_ (fun _ hmem => absurd hmem List.not_mem_nil) hfold
    intro block hblock
    obtain ⟨raw, -, hnorm⟩ := List.mem_filterMap.mp hblock
    exact finalized_normalizeBlock hnorm

end AtlasKnowledge.Parsing
