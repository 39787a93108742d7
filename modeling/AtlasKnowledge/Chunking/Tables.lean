/-
# Packed tables

`pack_table` runs through the body rows with a buffer; what it returns are the lines of the rows,
packed greedily.

* `packTable_eq`: the loop is the packing;
* `nonSpace_packTable`: the rows of a finished table make no blank text;
* `pack_table`: what the packing is, and what the line of a row is.
-/
import AtlasKnowledge.Chunking.Builder
import AtlasKnowledge.Lib.Packing
import AtlasKnowledge.Parsing.Finalized

namespace AtlasKnowledge.Chunking

open Packing (pack packFrom total)
open Parsing (Finalized CellTrimmed)
open Str

variable {cfg : ChunkingConfig} {header : List Text}

/-! ## 1. The loop -/

/-- The lines of the body rows. -/
def tableLines (header : List Text) (rows : List (List Text)) : List Text :=
  (rows.map (serializeRow header)).filter fun line => line ≠ []

/-- The line joins the buffer, or the next one. -/
theorem packRow_line {s : TablePacking} {row : List Text} (h : serializeRow header row ≠ []) :
    packRow header cfg s row =
      if s.buffer ≠ [] ∧
          cfg.targetTokens < (s.bufferTokens + estimateTokens (serializeRow header row) : Nat) then
        { packed := s.packed ++ [join rowSeparator s.buffer], buffer := [serializeRow header row]
          bufferTokens := estimateTokens (serializeRow header row) }
      else
        { s with
          buffer := s.buffer ++ [serializeRow header row]
          bufferTokens := s.bufferTokens + estimateTokens (serializeRow header row) } := by
  simp only [packRow, if_neg h]
  split_ifs
  · simp only [List.nil_append, Nat.zero_add]
  · rfl

/-- The rows behind a buffer that is not empty. -/
theorem packRows_open (rows : List (List Text)) (s : TablePacking) (hopen : s.buffer ≠ [])
    (htokens : s.bufferTokens = total estimateTokens s.buffer) :
    (rows.foldl (packRow header cfg) s).close = s.packed ++
      (packFrom cfg.targetTokens estimateTokens s.buffer (tableLines header rows)).map
        (join rowSeparator) := by
  induction rows generalizing s with
  | nil => exact if_pos hopen
  | cons row rows ih =>
    by_cases hline : serializeRow header row = []
    · have hskip : packRow header cfg s row = s := by simp only [packRow, if_pos hline]
      have hlines : tableLines header (row :: rows) = tableLines header rows := by
        simp [tableLines, hline]
      rw [List.foldl_cons, hskip, hlines]
      exact ih s hopen htokens
    · have hlines : tableLines header (row :: rows)
          = serializeRow header row :: tableLines header rows := by
        simp [tableLines, hline]
      rw [List.foldl_cons, hlines, packRow_line hline, packFrom]
      by_cases hover : cfg.targetTokens <
          (total estimateTokens s.buffer + estimateTokens (serializeRow header row) : Nat)
      · rw [if_pos ⟨hopen, htokens ▸ hover⟩, if_pos hover]
        refine (ih _ (List.cons_ne_nil _ _) (Packing.total_singleton _).symm).trans ?_
        rw [List.map_cons, List.append_assoc]
        rfl
      · rw [if_neg fun h => hover (htokens ▸ h.2), if_neg hover]
        refine ih _ (List.append_ne_nil_of_left_ne_nil hopen _) ?_
        rw [Packing.total_append, Packing.total_singleton, htokens]

/-- The rows from the start of the loop. -/
theorem packRows_start (rows : List (List Text)) :
    (rows.foldl (packRow header cfg) {}).close
      = (pack cfg.targetTokens estimateTokens (tableLines header rows)).map
          (join rowSeparator) := by
  induction rows with
  | nil => rfl
  | cons row rows ih =>
    by_cases hline : serializeRow header row = []
    · have hskip : packRow header cfg {} row = {} := by simp only [packRow, if_pos hline]
      have hlines : tableLines header (row :: rows) = tableLines header rows := by
        simp [tableLines, hline]
      rw [List.foldl_cons, hskip, hlines]
      exact ih
    · have hlines : tableLines header (row :: rows)
          = serializeRow header row :: tableLines header rows := by
        simp [tableLines, hline]
      rw [List.foldl_cons, hlines, packRow_line hline, if_neg fun h => h.1 rfl]
      refine (packRows_open rows _ (List.cons_ne_nil _ _) ?_).trans ?_
      · simp
      · rfl

/-- **The loop is the packing** of the lines. -/
theorem packTable_eq {block : Block} {row : List Text} {rows : List (List Text)}
    (h : block.rows = some (header :: row :: rows)) :
    packTable block cfg
      = (pack cfg.targetTokens estimateTokens (tableLines header (row :: rows))).map
          (join rowSeparator) := by
  rw [← packRows_start, packTable, h]
  rfl

/-! ## 2. Rows of a finished table -/

/-- A text that is joined has what its parts have. -/
theorem nonSpace_join {sep : Char} {parts : List Text} {part : Text} (h : part ∈ parts)
    (hpart : nonSpace part ≠ []) : nonSpace (join sep parts) ≠ [] := by
  induction parts with
  | nil => exact absurd h List.not_mem_nil
  | cons first parts ih =>
    cases parts with
    | nil =>
      obtain rfl := List.mem_singleton.mp h
      simpa [join] using hpart
    | cons next parts =>
      rw [join, List.intercalate_cons_cons, nonSpace_append, nonSpace_append]
      rcases List.mem_cons.mp h with rfl | h
      · simp [hpart]
      · have hrest := ih h
        rw [join] at hrest
        simp [hrest]

theorem nonSpace_serializeCell {value : Text} {i : Nat} (hvalue : CellTrimmed value) :
    CellTrimmed (serializeCell header value i) := by
  intro hcell
  unfold serializeCell at hcell ⊢
  split
  · rename_i title htitle
    simp only [htitle] at hcell
    split_ifs at hcell ⊢
    · have hcolon : ':' ∈ nonSpace (title ++ ':' :: ' ' :: value) :=
        List.mem_filter.mpr ⟨List.mem_append_right _ List.mem_cons_self, by decide⟩
      exact List.ne_nil_of_mem hcolon
    · exact hvalue hcell
  · rename_i hnone
    simp only [hnone] at hcell
    exact hvalue hcell

/-- Cells joined to a text that is not empty. -/
theorem nonSpace_cells {cells : List Text} (hcells : ∀ cell ∈ cells, CellTrimmed cell)
    (h : ∃ cell ∈ cells, cell ≠ []) :
    nonSpace (join cellSeparator (cells.filter fun cell => cell ≠ [])) ≠ [] := by
  obtain ⟨cell, hcell, hne⟩ := h
  exact nonSpace_join (List.mem_filter.mpr ⟨hcell, decide_eq_true hne⟩) (hcells cell hcell hne)

theorem nonSpace_serializeRow {row : List Text} (hrow : ∀ cell ∈ row, CellTrimmed cell)
    (h : serializeRow header row ≠ []) : nonSpace (serializeRow header row) ≠ [] := by
  refine nonSpace_cells ?_ ?_
  · intro cell hcell
    obtain ⟨⟨value, i⟩, hzip, rfl⟩ := List.mem_map.mp hcell
    exact nonSpace_serializeCell (hrow value (List.fst_mem_of_mem_zipIdx hzip))
  · by_contra hnone
    have hempty : ((row.zipIdx.map fun cell => serializeCell header cell.1 cell.2).filter
        fun cell => cell ≠ []) = [] := by
      refine List.filter_eq_nil_iff.mpr fun cell hcell hne => hnone ⟨cell, hcell, ?_⟩
      exact of_decide_eq_true hne
    exact h (congrArg (join cellSeparator) hempty)

/-- **No text of a finished table is blank.** -/
theorem nonSpace_packTable {block : Block} (hblock : Finalized block) :
    ∀ text ∈ packTable block cfg, nonSpace text ≠ [] := by
  cases hrows : block.rows with
  | none =>
    have hnone : packTable block cfg = [] := by rw [packTable, hrows]; rfl
    rw [hnone]
    exact fun text htext => absurd htext List.not_mem_nil
  | some rows =>
    simp only [Finalized, hrows] at hblock
    rcases rows with _ | ⟨header, _ | ⟨row, rows⟩⟩
    · have hnone : packTable block cfg = [] := by rw [packTable, hrows]; rfl
      rw [hnone]
      exact fun text htext => absurd htext List.not_mem_nil
    · have hheader : packTable block cfg
          = [join cellSeparator (header.filter fun cell => cell ≠ [])] := by
        rw [packTable, hrows]
        rfl
      obtain ⟨hcell, hcells⟩ := hblock.2 header List.mem_cons_self
      rw [hheader]
      exact List.forall_mem_singleton.mpr (nonSpace_cells hcells hcell)
    · rw [packTable_eq hrows]
      intro text htext
      obtain ⟨group, hgroup, rfl⟩ := List.mem_map.mp htext
      obtain ⟨line, hline⟩ := List.exists_mem_of_ne_nil _ (Packing.pack_ne_nil group hgroup)
      have hlines : line ∈ tableLines header (row :: rows) := by
        rw [← @Packing.flatten_pack _ cfg.targetTokens estimateTokens
          (tableLines header (row :: rows))]
        exact List.mem_flatten.mpr ⟨group, hgroup, hline⟩
      obtain ⟨hmap, hne⟩ := List.mem_filter.mp hlines
      obtain ⟨source, hsource, rfl⟩ := List.mem_map.mp hmap
      have hcells := (hblock.2 source (List.mem_cons_of_mem _ hsource)).2
      exact nonSpace_join hline (nonSpace_serializeRow hcells (of_decide_eq_true hne))

/-! ## 3. Groups and lines -/

/-- The title over a column; there is none behind the end of the header. -/
def title (header : List Text) (i : Nat) : Text := header[i]?.getD []

/-- The value of a column, behind its title and a colon if it has a title. -/
def labelled (header : List Text) (cell : Text × Nat) : Text :=
  if title header cell.2 = [] then cell.1 else title header cell.2 ++ ": ".toList ++ cell.1

/-- The columns of a row that have a value or a title. -/
def columns (header row : List Text) : List (Text × Nat) :=
  row.zipIdx.filter fun cell => cell.1 ≠ [] ∨ title header cell.2 ≠ []

theorem serializeCell_eq (header : List Text) (cell : Text × Nat) :
    serializeCell header cell.1 cell.2 = labelled header cell := by
  have hcolon : ": ".toList = [':', ' '] := rfl
  unfold serializeCell labelled title
  split
  · rename_i text htext
    by_cases hempty : text = []
    · simp [htext, hempty]
    · simp [htext, hempty, hcolon]
  · rename_i hnone
    simp [hnone]

theorem labelled_ne_nil (header : List Text) (cell : Text × Nat) :
    labelled header cell ≠ [] ↔ cell.1 ≠ [] ∨ title header cell.2 ≠ [] := by
  unfold labelled
  split_ifs with htitle
  · simp [htitle]
  · simp [htitle]

/-- **The line of a row.** -/
theorem serializeRow_eq (header row : List Text) :
    serializeRow header row = join cellSeparator ((columns header row).map (labelled header)) := by
  have hcells : (row.zipIdx.map fun cell => serializeCell header cell.1 cell.2)
      = row.zipIdx.map (labelled header) :=
    List.map_congr_left fun cell _ => serializeCell_eq header cell
  have hcolumns : columns header row
      = row.zipIdx.filter ((fun cell : Text => decide (cell ≠ [])) ∘ labelled header) := by
    refine List.filter_congr fun cell _ => ?_
    rw [Function.comp_apply, decide_eq_decide]
    exact (labelled_ne_nil header cell).symm
  rw [serializeRow, hcells, List.filter_map, hcolumns]

/-- The columns with a value are among those of the line. -/
theorem values_sublist (header row : List Text) :
    (row.zipIdx.filter fun cell => cell.1 ≠ []).Sublist (columns header row) := by
  refine List.monotone_filter_right _ fun cell hcell => ?_
  exact decide_eq_true (.inl (of_decide_eq_true hcell))

/-- **`pack_table` packs the lines of a table in their order, and greedily.**  A line has the values
of its row in the order of the columns, each behind its title if the column has one. -/
theorem pack_table {block : Block} {row : List Text} {rows : List (List Text)}
    (h : block.rows = some (header :: row :: rows)) (cfg : ChunkingConfig) :
    (∃ groups : List (List Text),
      packTable block cfg = groups.map (join rowSeparator) ∧
      groups.flatten = tableLines header (row :: rows) ∧
      (∀ group ∈ groups, group ≠ []) ∧
      (∀ group ∈ groups, 1 < group.length →
        (total estimateTokens group : Int) ≤ cfg.targetTokens) ∧
      groups.IsChain fun group next => ∀ line ∈ next.head?,
        cfg.targetTokens < (total estimateTokens group + estimateTokens line : Nat)) ∧
    ∀ r : List Text,
      serializeRow header r = join cellSeparator ((columns header r).map (labelled header)) ∧
      (r.zipIdx.filter fun cell => cell.1 ≠ []).Sublist (columns header r) := by
  constructor
  · refine ⟨_, packTable_eq h, Packing.flatten_pack _, Packing.pack_ne_nil, ?_,
      Packing.pack_greedy _⟩
    intro group hgroup hlong
    exact (Packing.pack_fits group hgroup).resolve_left (not_le.mpr hlong)
  · exact fun r => ⟨serializeRow_eq header r, values_sublist header r⟩

/-- A table with a row that is longer than its header, and one that is shorter. -/
def raggedTable : Block :=
  { type := .table
    rows := some [["a".toList, []], ["1".toList, "2".toList, "3".toList], ["4".toList]] }

theorem pack_table_ragged : ∃ groups : List (List Text),
    packTable raggedTable { targetTokens := 3 } = groups.map (join rowSeparator) ∧
      groups.flatten = ["a: 1｜2｜3".toList, "a: 4".toList] := by
  obtain ⟨groups, htexts, hlines, -⟩ := (@pack_table ["a".toList, []] raggedTable
    ["1".toList, "2".toList, "3".toList] [["4".toList]] rfl { targetTokens := 3 }).1
  exact ⟨groups, htexts, hlines⟩

end AtlasKnowledge.Chunking
