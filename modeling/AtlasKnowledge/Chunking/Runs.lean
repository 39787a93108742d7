/-
# Runs of text blocks

The builder carries its state from block to block.  What comes out does not need it: between two
headings or tables stands a run of text blocks; its pieces are packed into groups, and each group
is a chunk, the first one under the heading if the section has none yet, the others behind the end
of the chunk before.

* `chunk_eq`: the drafts of a document are the chunks of its runs and the rows of its tables.
-/
import AtlasKnowledge.Chunking.Builder
import AtlasKnowledge.Lib.Packing

namespace AtlasKnowledge.Chunking

open Packing (pack packFrom total)

/-! ## 1. Chunks -/

/-- What a text chunk is made of. -/
structure Part where
  overlap : Text
  heading : Text
  body : Text
  deriving DecidableEq, Repr

/-- The parts that are not empty, joined by newlines. -/
def Part.text (p : Part) : Text :=
  join '\n' ([p.overlap, p.heading, p.body].filter fun part => part ≠ [])

/-- A place in a document: how many headings and how many tables are in front of it. -/
structure Place where
  headings : Nat := 0
  tables : Nat := 0
  deriving DecidableEq, Repr

inductive Chunk where
  | text (place : Place) (part : Part)
  | table (text : Text)
  deriving DecidableEq, Repr

/-- The text and the block type of the draft. -/
def Chunk.out : Chunk → Text × String
  | .text _ part => (part.text, "text")
  | .table row => (row, "table")

variable (cfg : ChunkingConfig)

/-- The pieces of a run. -/
def pieces (run : List Block) : List Text :=
  run.flatMap fun block => splitToLimit block.text cfg.targetTokens

/-- The groups of a run. -/
def groups (run : List Block) : List (List Text) :=
  pack cfg.targetTokens estimateTokens (pieces cfg run)

/-- The parts of groups: the heading is the first one's, and the others have the end of the
group before. -/
def partsFrom (overlap heading : Text) : List (List Text) → List Part
  | [] => []
  | group :: groups =>
    let body := join '\n' group
    ⟨overlap, heading, body⟩ :: partsFrom (tailWithin body cfg.overlapTokens) [] groups

/-- The chunks of a run. -/
def runChunks (place : Place) (heading : Text) (run : List Block) : List Chunk :=
  (partsFrom cfg [] heading (groups cfg run)).map (.text place)

/-- The chunks of a run that is open and of the blocks behind it. -/
def chunksFrom (place : Place) (heading : Text) (run : List Block) : List Block → List Chunk
  | [] => runChunks cfg place heading run
  | block :: blocks =>
    match block.type with
    | .heading =>
      runChunks cfg place heading run ++
        chunksFrom { place with headings := place.headings + 1 } block.text [] blocks
    | .table =>
      runChunks cfg place heading run ++ (packTable block cfg).map .table ++
        chunksFrom { place with tables := place.tables + 1 } (if run = [] then heading else []) []
          blocks
    | .paragraph | .listItem | .code => chunksFrom place heading (run ++ [block]) blocks

/-- The chunks of a document. -/
def chunksOf (doc : NormalizedDocument) : List Chunk := chunksFrom cfg {} [] [] doc.blocks

/-! ## 2. The builder's steps -/

namespace Builder

variable {cfg} {b : Builder}

/-- The texts and block types of the drafts. -/
def outs (b : Builder) : List (Text × String) :=
  b.drafts.list.map fun draft => (draft.text, draft.info.blockType)

/-- Nothing is pending. -/
structure Flushed (b : Builder) : Prop where
  pending : b.pending = []
  tokens : b.pendingTokens = 0

theorem outs_emit (text : Text) (blockType : String) (page : Option Int) :
    (b.emit text blockType page).outs = b.outs ++ [(text, blockType)] :=
  List.map_append

theorem flush_of_flushed (h : b.Flushed) : b.flush cfg = b := if_pos h.pending

/-- What `flush` makes of what is pending. -/
theorem flush_spec (h : b.pending ≠ []) :
    (b.flush cfg).outs =
        b.outs ++ [(Part.text ⟨b.overlap, b.sectionPrefix.getD [], join '\n' b.pending⟩, "text")] ∧
      (b.flush cfg).Flushed ∧ (b.flush cfg).sectionPrefix = none ∧
      (b.flush cfg).overlap = tailWithin (join '\n' b.pending) cfg.overlapTokens := by
  rw [flush, if_neg h]
  exact ⟨List.map_append, ⟨rfl, rfl⟩, rfl, rfl⟩

theorem emitAll_spec (page : Option Int) (texts : List Text) (b : Builder) :
    let b' := texts.foldl (fun b text => b.emit text "table" page) b
    b'.outs = b.outs ++ (texts.map Chunk.table).map Chunk.out ∧ b'.pending = b.pending ∧
      b'.pendingTokens = b.pendingTokens ∧ b'.sectionPrefix = b.sectionPrefix := by
  induction texts generalizing b with
  | nil => exact ⟨(List.append_nil _).symm, rfl, rfl, rfl⟩
  | cons text texts ih =>
    obtain ⟨houts, hpending, htokens, hprefix⟩ := ih (b.emit text "table" page)
    refine ⟨?_, hpending, htokens, hprefix⟩
    rw [List.foldl_cons, houts, outs_emit, List.append_assoc, List.map_cons, List.map_cons]
    rfl

/-! ## 3. A run -/

/-- The pieces of a run, one after the other, with the pages of their blocks. -/
def addPieces (cfg : ChunkingConfig) (b : Builder) (pieces : List (Option Int × Text)) : Builder :=
  pieces.foldl (fun b piece => addPiece cfg piece.1 b piece.2) b

/-- A group is open: the rest of the run is packed behind it. -/
theorem addPieces_open (pieces : List (Option Int × Text)) (b : Builder) (hopen : b.pending ≠ [])
    (htokens : b.pendingTokens = total estimateTokens b.pending) :
    let b' := (addPieces cfg b pieces).flush cfg
    b'.outs = b.outs ++
        (partsFrom cfg b.overlap (b.sectionPrefix.getD [])
          (packFrom cfg.targetTokens estimateTokens b.pending (pieces.map Prod.snd))).map
          (fun part => (part.text, "text")) ∧
      b'.Flushed ∧ b'.sectionPrefix = none := by
  induction pieces generalizing b with
  | nil =>
    obtain ⟨houts, hflushed, hprefix, -⟩ := @flush_spec cfg b hopen
    exact ⟨houts, hflushed, hprefix⟩
  | cons piece pieces ih =>
    intro b'
    by_cases hover :
        cfg.targetTokens < (total estimateTokens b.pending + estimateTokens piece.2 : Nat)
    · -- the group is closed, and the piece opens the next one
      obtain ⟨houts, hflushed, hprefix, hoverlap⟩ := @flush_spec cfg b hopen
      have hstep : addPiece cfg piece.1 b piece.2 = hold piece.1 (b.flush cfg) piece.2 := by
        rw [addPiece, if_pos ⟨hopen, htokens ▸ hover⟩]
      have hpending : (hold piece.1 (b.flush cfg) piece.2).pending = [piece.2] := by
        rw [hold, hflushed.pending, List.nil_append]
      have htotal : (hold piece.1 (b.flush cfg) piece.2).pendingTokens
          = total estimateTokens [piece.2] := by
        rw [hold, hflushed.tokens, Nat.zero_add, Packing.total_singleton]
      obtain ⟨houts', hrest⟩ := ih (hold piece.1 (b.flush cfg) piece.2)
        (by rw [hpending]; exact List.cons_ne_nil _ _) (by rw [hpending]; exact htotal)
      have hb : b' = (addPieces cfg (hold piece.1 (b.flush cfg) piece.2) pieces).flush cfg := by
        rw [← hstep]
        rfl
      rw [hb]
      refine ⟨houts'.trans ?_, hrest⟩
      have hkept : (hold piece.1 (b.flush cfg) piece.2).outs = (b.flush cfg).outs := rfl
      have hsame : (hold piece.1 (b.flush cfg) piece.2).overlap = (b.flush cfg).overlap := rfl
      have hnone : (hold piece.1 (b.flush cfg) piece.2).sectionPrefix = none := hprefix
      rw [hkept, hsame, hnone, hpending, houts, hoverlap, List.append_assoc, List.map_cons,
        packFrom,
        if_pos hover]
      rfl
    · have hstep : addPiece cfg piece.1 b piece.2 = hold piece.1 b piece.2 := by
        rw [addPiece, if_neg fun h => hover (htokens ▸ h.2)]
      obtain ⟨houts', hrest⟩ := ih (hold piece.1 b piece.2)
        (List.append_ne_nil_of_left_ne_nil hopen _) (by simp [hold, htokens])
      have hb : b' = (addPieces cfg (hold piece.1 b piece.2) pieces).flush cfg := by
        rw [← hstep]
        rfl
      rw [hb]
      refine ⟨houts'.trans ?_, hrest⟩
      rw [List.map_cons, packFrom, if_neg hover]
      rfl

/-- The pieces of a run, behind a builder with nothing pending. -/
theorem addPieces_flushed (pieces : List (Option Int × Text)) (b : Builder) (h : b.Flushed) :
    let b' := (addPieces cfg b pieces).flush cfg
    b'.outs = b.outs ++
        (partsFrom cfg b.overlap (b.sectionPrefix.getD [])
          (pack cfg.targetTokens estimateTokens (pieces.map Prod.snd))).map
          (fun part => (part.text, "text")) ∧
      b'.Flushed ∧ b'.sectionPrefix = if pieces = [] then b.sectionPrefix else none := by
  cases pieces with
  | nil =>
    intro b'
    have hsame : b' = b := flush_of_flushed h
    rw [hsame]
    exact ⟨(List.append_nil _).symm, h, rfl⟩
  | cons piece pieces =>
    intro b'
    have hstep : addPiece cfg piece.1 b piece.2 = hold piece.1 b piece.2 := by
      rw [addPiece, if_neg fun hfull => hfull.1 h.pending]
    have hpending : (hold piece.1 b piece.2).pending = [piece.2] := by
      rw [hold, h.pending, List.nil_append]
    have htotal : (hold piece.1 b piece.2).pendingTokens = total estimateTokens [piece.2] := by
      rw [hold, h.tokens, Nat.zero_add, Packing.total_singleton]
    obtain ⟨houts, hflushed, hprefix⟩ := @addPieces_open cfg pieces (hold piece.1 b piece.2)
      (by rw [hpending]; exact List.cons_ne_nil _ _) (by rw [hpending]; exact htotal)
    have hb : b' = (addPieces cfg (hold piece.1 b piece.2) pieces).flush cfg := by
      rw [← hstep]
      rfl
    rw [hb]
    refine ⟨houts.trans ?_, hflushed, hprefix⟩
    rw [hpending]
    rfl

/-- The text blocks of a run are its pieces. -/
theorem addText_eq (run : List Block) (b : Builder) :
    run.foldl (addText cfg) b = addPieces cfg b (run.flatMap fun block =>
      (splitToLimit block.text cfg.targetTokens).map fun piece => (block.page, piece)) := by
  rw [addPieces, List.foldl_flatMap]
  congr 1
  funext b block
  rw [List.foldl_map]
  rfl

/-- **A run** comes out as its chunks. -/
theorem addRun_spec (place : Place) (run : List Block) (b : Builder) (h : b.Flushed)
    (hoverlap : b.overlap = []) :
    let b' := (run.foldl (addText cfg) b).flush cfg
    b'.outs = b.outs ++ (runChunks cfg place (b.sectionPrefix.getD []) run).map Chunk.out ∧
      b'.Flushed ∧ b'.sectionPrefix = if run = [] then b.sectionPrefix else none := by
  intro b'
  obtain ⟨houts, hflushed, hprefix⟩ := @addPieces_flushed cfg (run.flatMap fun block =>
      (splitToLimit block.text cfg.targetTokens).map fun piece => (block.page, piece)) b h
  rw [← addText_eq] at houts hflushed hprefix
  refine ⟨?_, hflushed, hprefix.trans ?_⟩
  · have hpieces : (run.flatMap fun block =>
        (splitToLimit block.text cfg.targetTokens).map
          fun piece => (block.page, piece)).map Prod.snd
          = pieces cfg run := by
      rw [pieces, List.map_flatMap]
      simp only [List.map_map, Function.comp_def, List.map_id']
    rw [houts, hpieces, hoverlap, runChunks, List.map_map]
    rfl
  · cases run with
    | nil => rfl
    | cons block run =>
      rw [if_neg (List.cons_ne_nil _ _), if_neg]
      intro hnil
      obtain ⟨hfirst, -⟩ := List.append_eq_nil_iff.mp hnil
      exact splitToLimit_ne_nil _ _ (List.map_eq_nil_iff.mp hfirst)

/-! ## 4. The whole document -/

/-- A builder at the start of a run comes to the run's end and the blocks behind it. -/
theorem addBlocks_spec (blocks : List Block) (place : Place) (run : List Block) (b : Builder)
    (h : b.Flushed) (hoverlap : b.overlap = []) :
    ((blocks.foldl (addBlock cfg) (run.foldl (addText cfg) b)).flush cfg).outs
      = b.outs ++
        (chunksFrom cfg place (b.sectionPrefix.getD []) run blocks).map Chunk.out := by
  induction blocks generalizing place run b with
  | nil => exact (addRun_spec place run b h hoverlap).1
  | cons block blocks ih =>
    obtain ⟨houts, hflushed, hprefix⟩ := @addRun_spec cfg place run b h hoverlap
    rw [List.foldl_cons, chunksFrom]
    cases htype : block.type with
    | heading =>
      have hstep : addBlock cfg (run.foldl (addText cfg) b) block
          = startSection cfg (run.foldl (addText cfg) b) block := by
        simp only [addBlock, htype]
      rw [hstep]
      have hrest := ih { place with headings := place.headings + 1 } []
        (startSection cfg (run.foldl (addText cfg) b) block) ⟨hflushed.1, hflushed.2⟩ rfl
      refine hrest.trans ?_
      have hsame : (startSection cfg (run.foldl (addText cfg) b) block).outs
          = ((run.foldl (addText cfg) b).flush cfg).outs := rfl
      rw [hsame, houts, List.append_assoc, List.map_append]
      rfl
    | table =>
      have hstep : addBlock cfg (run.foldl (addText cfg) b) block
          = addTable cfg (run.foldl (addText cfg) b) block := by
        simp only [addBlock, htype]
      rw [hstep]
      obtain ⟨hrows, hpending, htokens, hkept⟩ :=
        emitAll_spec block.page (packTable block cfg) ((run.foldl (addText cfg) b).flush cfg)
      have hrest := ih { place with tables := place.tables + 1 } []
        (addTable cfg (run.foldl (addText cfg) b) block)
        ⟨hpending.trans hflushed.1, htokens.trans hflushed.2⟩ rfl
      refine hrest.trans ?_
      have hsame : (addTable cfg (run.foldl (addText cfg) b) block).outs
          = ((packTable block cfg).foldl (fun b text => b.emit text "table" block.page)
              ((run.foldl (addText cfg) b).flush cfg)).outs := rfl
      have hheading : (addTable cfg (run.foldl (addText cfg) b) block).sectionPrefix.getD []
          = if run = [] then b.sectionPrefix.getD [] else [] := by
        have hprefix' : (addTable cfg (run.foldl (addText cfg) b) block).sectionPrefix
            = if run = [] then b.sectionPrefix else none := hkept.trans hprefix
        rw [hprefix']
        split_ifs <;> rfl
      rw [hsame, hrows, houts, hheading, List.map_append, List.map_append]
      simp only [List.append_assoc]
    | paragraph | listItem | code =>
      have hstep : addBlock cfg (run.foldl (addText cfg) b) block
          = (run ++ [block]).foldl (addText cfg) b := by
        rw [List.foldl_append]
        simp only [addBlock, htype, List.foldl_cons, List.foldl_nil]
      rw [hstep]
      exact ih place (run ++ [block]) b h hoverlap

end Builder

/-- **The drafts** of a document are the chunks of its runs and tables. -/
theorem chunk_eq (doc : NormalizedDocument) :
    (chunk doc cfg).list.map (fun draft => (draft.text, draft.info.blockType))
      = (chunksOf cfg doc).map Chunk.out := by
  have h := @Builder.addBlocks_spec cfg doc.blocks {} [] {} ⟨rfl, rfl⟩ rfl
  rw [chunk, Builder.finish]
  exact h

end AtlasKnowledge.Chunking
