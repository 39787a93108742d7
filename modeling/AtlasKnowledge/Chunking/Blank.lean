/-
# Blank chunks

The pieces of a block may be nothing but white space: `_split_to_limit` cuts right before and
right behind a newline, and through a stretch of spaces.  Such pieces may fill a group, and the
group is a chunk; it is blank unless it has an overlap.

* `blank_iff`: exactly when a finished document is chunked without a blank chunk;
* `not_nonblank`: a document that is not.
-/
import AtlasKnowledge.Chunking.Content
import AtlasKnowledge.Chunking.Tables
import Mathlib.Data.List.Chain

namespace AtlasKnowledge.Chunking

open Parsing (Finalized finalizeDocument)
open Str

/-! ## 1. Covered runs -/

/-- The runs of text blocks between headings and tables. -/
def runsFrom (run : List Block) : List Block → List (List Block)
  | [] => [run]
  | block :: blocks =>
    match block.type with
    | .heading | .table => run :: runsFrom [] blocks
    | .paragraph | .listItem | .code => runsFrom (run ++ [block]) blocks

/-- Behind a group whose end gives no overlap, the next group is not blank. -/
def Covers (cfg : ChunkingConfig) (group next : List Text) : Prop :=
  nonSpace next.flatten = [] → tailWithin (join '\n' group) cfg.overlapTokens ≠ []

/-- The pieces of the run, packed, are covered. -/
def RunCovered (cfg : ChunkingConfig) (run : List Block) : Prop :=
  (groups cfg run).IsChain (Covers cfg)

variable {cfg : ChunkingConfig}

/-! ## 2. Parts -/

theorem nonSpace_newlines (texts : List Text) :
    nonSpace (join '\n' texts) = nonSpace texts.flatten := filter_join (by decide) texts

theorem nonSpace_parts (texts : List Text) :
    nonSpace (texts.filter fun text => text ≠ []).flatten = nonSpace texts.flatten := by
  rw [List.flatten_filter_ne_nil]

theorem nonSpace_text (part : Part) :
    nonSpace part.text
      = nonSpace part.overlap ++ (nonSpace part.heading ++ nonSpace part.body) := by
  rw [Part.text, nonSpace_newlines, nonSpace_parts]
  simp

/-- The groups behind a group whose chunk is not blank. -/
theorem partsFrom_nonblank (overlap heading : Text) (group : List Text)
    (groups : List (List Text))
    (hfirst : nonSpace (Part.text ⟨overlap, heading, join '\n' group⟩) ≠ []) :
    (∀ part ∈ partsFrom cfg overlap heading (group :: groups), nonSpace part.text ≠ []) ↔
      (group :: groups).IsChain (Covers cfg) := by
  induction groups generalizing overlap heading group with
  | nil =>
    rw [partsFrom, partsFrom, List.forall_mem_singleton]
    exact ⟨fun _ => .singleton _, fun _ => hfirst⟩
  | cons next groups ih =>
    have htail := (tailWithin_spec (join '\n' group) cfg.overlapTokens).2.2
    have hnext : nonSpace (Part.text
        ⟨tailWithin (join '\n' group) cfg.overlapTokens, [], join '\n' next⟩) ≠ [] ↔
        Covers cfg group next := by
      rw [nonSpace_text, nonSpace_newlines, Covers]
      rcases htail with hnone | hsome
      · simp [hnone, nonSpace]
      · have hne : tailWithin (join '\n' group) cfg.overlapTokens ≠ [] := by
          intro hnil
          rw [hnil] at hsome
          exact hsome rfl
        simp [hsome, hne]
    rw [partsFrom, List.forall_mem_cons, List.isChain_cons_cons]
    constructor
    · rintro ⟨-, hrest⟩
      have hhead := hnext.mp (hrest _ List.mem_cons_self)
      exact ⟨hhead, (ih _ _ _ (hnext.mpr hhead)).mp hrest⟩
    · rintro ⟨hhead, hrest⟩
      exact ⟨hfirst, (ih _ _ _ (hnext.mpr hhead)).mpr hrest⟩

/-! ## 3. Runs -/

/-- A text block of a finished document: it starts with a character that is not white space. -/
def Starts (block : Block) : Prop := ∃ c text, block.text = c :: text ∧ isSpace c = false

/-- **A run** has no blank chunk exactly if it is covered. -/
theorem run_nonblank (place : Place) (heading : Text) {run : List Block}
    (hrun : ∀ block ∈ run, Starts block) :
    (∀ c ∈ runChunks cfg place heading run, nonSpace c.out.1 ≠ []) ↔ RunCovered cfg run := by
  have hparts : (∀ c ∈ runChunks cfg place heading run, nonSpace c.out.1 ≠ []) ↔
      ∀ part ∈ partsFrom cfg [] heading (groups cfg run), nonSpace part.text ≠ [] := by
    rw [runChunks, List.forall_mem_map]
    rfl
  rw [hparts, RunCovered]
  cases run with
  | nil => exact ⟨fun _ => .nil, fun _ part hpart => absurd hpart List.not_mem_nil⟩
  | cons block run =>
    obtain ⟨c, text, htext, hspace⟩ := hrun block List.mem_cons_self
    obtain ⟨piece, pieces', hpieces⟩ :=
      @head_splitWithin cfg.targetTokens (c :: text).length c text
    obtain ⟨more, others, hgroups⟩ : ∃ more others,
        groups cfg (block :: run) = ((c :: piece) :: more) :: others := by
      rw [groups, pieces, List.flatMap_cons, splitToLimit, htext, hpieces, List.cons_append]
      exact Packing.head_pack _ _
    rw [hgroups]
    refine partsFrom_nonblank [] heading _ others ?_
    -- the first group starts with the first character of its block
    rw [nonSpace_text, nonSpace_newlines, List.flatten_cons, List.cons_append]
    have hmem : c ∈ nonSpace (c :: (piece ++ more.flatten)) :=
      List.mem_filter.mpr ⟨List.mem_cons_self, by simp [hspace]⟩
    exact List.ne_nil_of_mem (List.mem_append_right _ (List.mem_append_right _ hmem))

/-- **The chunks of blocks** are not blank exactly if the runs are covered. -/
theorem chunks_nonblank (place : Place) (heading : Text) (run blocks : List Block)
    (hrun : ∀ block ∈ run, Starts block)
    (htables : ∀ block ∈ blocks, ∀ text ∈ packTable block cfg, nonSpace text ≠ [])
    (htexts : ∀ block ∈ blocks, block.type ∈ textBlockTypes → Starts block) :
    (∀ c ∈ chunksFrom cfg place heading run blocks, nonSpace c.out.1 ≠ []) ↔
      ∀ r ∈ runsFrom run blocks, RunCovered cfg r := by
  induction blocks generalizing place heading run with
  | nil => rw [chunksFrom, runsFrom, List.forall_mem_singleton, run_nonblank place heading hrun]
  | cons block blocks ih =>
    obtain ⟨htable, htables⟩ := List.forall_mem_cons.mp htables
    obtain ⟨htext, htexts⟩ := List.forall_mem_cons.mp htexts
    have hnone : ∀ block ∈ ([] : List Block), Starts block :=
      fun block hblock => absurd hblock List.not_mem_nil
    rw [chunksFrom, runsFrom]
    cases htype : block.type with
    | heading =>
      rw [List.forall_mem_append, List.forall_mem_cons, run_nonblank place heading hrun]
      exact and_congr_right fun _ => ih _ _ [] hnone htables htexts
    | table =>
      have hrows : ∀ c ∈ (packTable block cfg).map Chunk.table, nonSpace c.out.1 ≠ [] :=
        List.forall_mem_map.mpr htable
      rw [List.forall_mem_append, List.forall_mem_append, List.forall_mem_cons,
        run_nonblank place heading hrun, and_iff_left hrows]
      exact and_congr_right fun _ => ih _ _ [] hnone htables htexts
    | paragraph | listItem | code =>
      refine ih place heading (run ++ [block]) ?_ htables htexts
      intro block' hmem
      rcases List.mem_append.mp hmem with hmem | hmem
      · exact hrun block' hmem
      · obtain rfl := List.mem_singleton.mp hmem
        exact htext (by rw [htype]; decide)

/-! ## 4. Finished documents -/

/-- **When no chunk is blank**: exactly if in each run of text blocks, cut and packed, a blank
group stands only behind a group whose end is an overlap. -/
theorem blank_iff {blocks : List Block} {info : DocumentMeta} {doc : NormalizedDocument}
    (cfg : ChunkingConfig) (hdoc : finalizeDocument blocks info = .ok doc)
    (htexts : ∀ block ∈ doc.blocks, block.type ∈ textBlockTypes → nonSpace block.text ≠ []) :
    (∀ draft ∈ (chunk doc cfg).list, nonSpace draft.text ≠ []) ↔
      ∀ run ∈ runsFrom [] doc.blocks, RunCovered cfg run := by
  have hfinalized := Parsing.finalized hdoc
  have hstarts : ∀ block ∈ doc.blocks, block.type ∈ textBlockTypes → Starts block := by
    intro block hblock htype
    have hblock' := hfinalized block hblock
    unfold Finalized at hblock'
    cases hrows : block.rows with
    | none =>
      simp only [hrows] at hblock'
      exact hblock'
    | some rows =>
      simp only [hrows] at hblock'
      exact absurd (by rw [hblock'.1]; rfl) (htexts block hblock htype)
  have hdrafts : (∀ draft ∈ (chunk doc cfg).list, nonSpace draft.text ≠ []) ↔
      ∀ out ∈ (chunk doc cfg).list.map fun draft => (draft.text, draft.info.blockType),
        nonSpace out.1 ≠ [] := by
    rw [List.forall_mem_map]
  rw [hdrafts, chunk_eq, List.forall_mem_map]
  exact chunks_nonblank {} [] [] doc.blocks (fun block hblock => absurd hblock List.not_mem_nil)
    (fun block hblock => nonSpace_packTable (hfinalized block hblock)) hstarts

/-! ### Two lines, one character each -/

/-- The newline is a piece of its own, and a chunk. -/
def twoLines : NormalizedDocument where
  blocks := [{ type := .paragraph, text := ['\u5b57', '\n', '\u5b57'] }]
  info := { sourceMime := "text/plain" }

theorem blank_iff_twoLines :
    (∀ draft ∈ (chunk twoLines ⟨1, 1⟩).list, nonSpace draft.text ≠ []) ↔
      ∀ run ∈ runsFrom [] twoLines.blocks, RunCovered ⟨1, 1⟩ run :=
  @blank_iff twoLines.blocks twoLines.info twoLines ⟨1, 1⟩ (by rfl) (by decide)

theorem not_nonblank :
    ¬ ∀ (blocks : List Block) (info : DocumentMeta) (doc : NormalizedDocument)
      (cfg : ChunkingConfig), finalizeDocument blocks info = .ok doc →
      (∀ block ∈ doc.blocks, block.type ∈ textBlockTypes → nonSpace block.text ≠ []) →
      (∀ block ∈ doc.blocks, ∀ rows ∈ block.rows, ∀ row ∈ rows, ∃ cell ∈ row, nonSpace cell ≠ []) →
      1 ≤ cfg.targetTokens → ∀ draft ∈ (chunk doc cfg).list, nonSpace draft.text ≠ [] := by
  intro h
  have hall := h twoLines.blocks twoLines.info twoLines ⟨1, 0⟩ (by rfl) (by decide) (by decide)
    (by decide)
  exact absurd hall (by decide +kernel)

end AtlasKnowledge.Chunking
