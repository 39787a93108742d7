/-
# The headings over a chunk

A draft bears the titles on the builder's stack when it is emitted.  What a chunk holds comes from
blocks further back: the stack must not have moved since.  `Trace` runs the builder along with the
positions of the blocks whose pieces are pending, and so says of each draft which blocks it holds.

* `trace_builder`: the trace is the builder's run;
* `heading_path`: a draft bears the headings that enclose each of the blocks it holds.
-/
import AtlasKnowledge.Chunking.Runs
import AtlasKnowledge.Lib.Enclosing
import Mathlib.Data.List.Forall2

namespace AtlasKnowledge.Chunking

open Enclosing (enclosing)

/-! ## 1. The headings of a document -/

/-- The level of a heading: one that is missing or 0 counts as 1. -/
def effectiveLevel : Option Int → Int
  | none | some 0 => 1
  | some level => level

/-- The headings, with their levels. -/
def headingsOf (blocks : List Block) : List (Int × Text) :=
  blocks.filterMap fun block =>
    if block.type = .heading then some (effectiveLevel block.level, block.text) else none

/-- The headings in front of a position that no later one of their level or above ends. -/
def headingPath (blocks : List Block) (pos : Nat) : List (Int × Text) :=
  enclosing Prod.fst (headingsOf (blocks.take pos))

/-! ## 2. The trace -/

/-- A piece of a block, with the block's position. -/
abbrev Source := Nat × Text

/-- The builder, with the sources of what is pending and of each draft. -/
structure Trace where
  builder : Builder := {}
  held : List Source := []
  contents : List (List Source) := []

namespace Trace

def flush (cfg : ChunkingConfig) (t : Trace) : Trace :=
  if t.builder.pending = [] then t
  else
    { builder := t.builder.flush cfg, held := [], contents := t.contents ++ [t.held] }

def addPiece (cfg : ChunkingConfig) (page : Option Int) (pos : Nat) (t : Trace) (piece : Text) :
    Trace :=
  let full := t.builder.pending ≠ [] ∧
    cfg.targetTokens < (t.builder.pendingTokens + estimateTokens piece : Nat)
  let t := if full then t.flush cfg else t
  { t with builder := t.builder.hold page piece, held := t.held ++ [(pos, piece)] }

/-- A row of the table is a chunk. -/
def addRow (page : Option Int) (pos : Nat) (t : Trace) (text : Text) : Trace :=
  { t with builder := t.builder.emit text "table" page, contents := t.contents ++ [[(pos, text)]] }

def addBlock (cfg : ChunkingConfig) (pos : Nat) (t : Trace) (block : Block) : Trace :=
  match block.type with
  | .heading => { t.flush cfg with builder := t.builder.startSection cfg block }
  | .table =>
    let t := (packTable block cfg).foldl (addRow block.page pos) (t.flush cfg)
    { t with builder := { t.builder with overlap := [] } }
  | .paragraph | .listItem | .code =>
    (splitToLimit block.text cfg.targetTokens).foldl (addPiece cfg block.page pos) t

/-- The blocks from a position on. -/
def addBlocks (cfg : ChunkingConfig) (pos : Nat) (t : Trace) : List Block → Trace
  | [] => t
  | block :: blocks => addBlocks cfg (pos + 1) (t.addBlock cfg pos block) blocks

end Trace

/-- `DefaultRecursiveChunking.chunk`, traced. -/
def trace (doc : NormalizedDocument) (cfg : ChunkingConfig) : Trace :=
  (Trace.addBlocks cfg 0 {} doc.blocks).flush cfg

/-! ## 3. The trace is the builder's run -/

variable {cfg : ChunkingConfig} {t : Trace}

theorem flush_builder (t : Trace) : (t.flush cfg).builder = t.builder.flush cfg := by
  rw [Trace.flush]
  split_ifs with hpending
  · rw [Builder.flush, if_pos hpending]
  · rfl

theorem addPiece_builder (page : Option Int) (pos : Nat) (t : Trace) (piece : Text) :
    (t.addPiece cfg page pos piece).builder = t.builder.addPiece cfg page piece := by
  simp only [Trace.addPiece, Builder.addPiece]
  split_ifs
  · rw [flush_builder]
  · rfl

/-- A loop of the trace is the builder's. -/
theorem foldl_builder {α : Type} (step : Trace → α → Trace) (step' : Builder → α → Builder)
    (hstep : ∀ t x, (step t x).builder = step' t.builder x) (xs : List α) (t : Trace) :
    (xs.foldl step t).builder = xs.foldl step' t.builder := by
  induction xs generalizing t with
  | nil => rfl
  | cons x xs ih => rw [List.foldl_cons, List.foldl_cons, ih, hstep]

theorem addBlock_builder (pos : Nat) (t : Trace) (block : Block) :
    (t.addBlock cfg pos block).builder = t.builder.addBlock cfg block := by
  rw [Trace.addBlock, Builder.addBlock]
  cases block.type with
  | heading => rfl
  | table =>
    simp only [Builder.addTable]
    rw [foldl_builder _ (fun b text => b.emit text "table" block.page) (fun _ _ => rfl),
      flush_builder]
  | paragraph | listItem | code =>
    exact foldl_builder _ _ (fun t piece => addPiece_builder block.page pos t piece) _ t

theorem addBlocks_builder (pos : Nat) (t : Trace) (blocks : List Block) :
    (t.addBlocks cfg pos blocks).builder = blocks.foldl (Builder.addBlock cfg) t.builder := by
  induction blocks generalizing pos t with
  | nil => rfl
  | cons block blocks ih => rw [Trace.addBlocks, ih, addBlock_builder, List.foldl_cons]

/-- **The trace is the builder's run.** -/
theorem trace_builder (doc : NormalizedDocument) (cfg : ChunkingConfig) :
    (trace doc cfg).builder.drafts = chunk doc cfg := by
  rw [trace, flush_builder, addBlocks_builder]
  rfl

/-! ## 4. The invariant -/

/-- The source is a piece of its block. -/
def IsSource (cfg : ChunkingConfig) (blocks : List Block) (x : Source) : Prop :=
  ∃ block, blocks[x.1]? = some block ∧
    (x.2 ∈ splitToLimit block.text cfg.targetTokens ∨ x.2 ∈ packTable block cfg)

/-- The draft holds the pieces at its end, and bears the headings that enclose their blocks. -/
structure Headed (cfg : ChunkingConfig) (blocks : List Block) (draft : ChunkDraft)
    (content : List Source) : Prop where
  nonempty : content ≠ []
  sources : ∀ x ∈ content, IsSource cfg blocks x
  holds : join '\n' (content.map Prod.snd) <:+ draft.text
  path : ∀ x ∈ content, draft.info.headingPath = (headingPath blocks x.1).map Prod.snd

/-- What the run keeps, in front of the block at `pos`. -/
structure Trace.Inv (cfg : ChunkingConfig) (blocks : List Block) (pos : Nat) (t : Trace) :
    Prop where
  held : t.builder.pending = t.held.map Prod.snd
  headings : t.builder.headings = headingPath blocks pos
  sources : ∀ x ∈ t.held, IsSource cfg blocks x
  here : ∀ x ∈ t.held, headingPath blocks x.1 = headingPath blocks pos
  drafts : List.Forall₂ (Headed cfg blocks) t.builder.drafts.list t.contents

variable {blocks : List Block} {pos : Nat}

/-- A part that is not empty is the end of what is joined. -/
theorem suffix_join (sep : Char) (parts : List Text) (body : Text) :
    body <:+ join sep ((parts ++ [body]).filter fun part => part ≠ []) := by
  by_cases hbody : body = []
  · rw [hbody]
    exact List.nil_suffix
  · have hkept : [body].filter (fun part => part ≠ []) = [body] :=
      List.filter_eq_self.mpr fun part hpart => by simpa [List.mem_singleton.mp hpart] using hbody
    rw [List.filter_append, hkept]
    generalize parts.filter (fun part => part ≠ []) = kept
    induction kept with
    | nil => simp [join]
    | cons part kept ih =>
      rw [List.cons_append]
      obtain ⟨next, more, hnext⟩ := List.exists_cons_of_ne_nil (List.append_ne_nil_of_right_ne_nil
        kept (List.cons_ne_nil body []))
      rw [hnext] at ih ⊢
      rw [join, List.intercalate_cons_cons]
      exact ih.trans (List.suffix_append _ _)

theorem flush_inv (h : t.Inv cfg blocks pos) :
    (t.flush cfg).Inv cfg blocks pos ∧ (t.flush cfg).held = [] := by
  rw [Trace.flush]
  split_ifs with hpending
  · have hnone : t.held = [] := List.map_eq_nil_iff.mp (h.held.symm.trans hpending)
    exact ⟨h, hnone⟩
  · refine ⟨⟨?_, ?_, nofun, nofun, ?_⟩, rfl⟩
    · rw [Builder.flush, if_neg hpending]
      rfl
    · rw [Builder.flush, if_neg hpending]
      exact h.headings
    · rw [Builder.flush, if_neg hpending]
      refine List.rel_append h.drafts (.cons ⟨?_, h.sources, ?_, ?_⟩ .nil)
      · exact fun hnone => hpending (by rw [h.held, hnone]; rfl)
      · rw [← h.held]
        exact suffix_join '\n' [t.builder.overlap, t.builder.sectionPrefix.getD []] _
      · intro x hx
        rw [h.here x hx, ← h.headings]

theorem addPiece_inv {block : Block} {piece : Text} (h : t.Inv cfg blocks pos)
    (hblock : blocks[pos]? = some block)
    (hpiece : piece ∈ splitToLimit block.text cfg.targetTokens) :
    (t.addPiece cfg block.page pos piece).Inv cfg blocks pos := by
  have hold : ∀ t : Trace, t.Inv cfg blocks pos → Trace.Inv cfg blocks pos
      { t with builder := t.builder.hold block.page piece, held := t.held ++ [(pos, piece)] } := by
    intro t h
    refine ⟨?_, h.headings, ?_, ?_, h.drafts⟩
    · rw [Builder.hold, List.map_append, ← h.held]
      rfl
    · exact List.forall_mem_append.mpr
        ⟨h.sources, List.forall_mem_singleton.mpr ⟨block, hblock, .inl hpiece⟩⟩
    · exact List.forall_mem_append.mpr ⟨h.here, List.forall_mem_singleton.mpr rfl⟩
  rw [Trace.addPiece]
  split_ifs
  · exact hold _ (flush_inv h).1
  · exact hold _ h

theorem addRow_inv {block : Block} {text : Text} (h : t.Inv cfg blocks pos)
    (hblock : blocks[pos]? = some block) (htext : text ∈ packTable block cfg) :
    (t.addRow block.page pos text).Inv cfg blocks pos := by
  refine ⟨h.held, h.headings, h.sources, h.here, ?_⟩
  refine List.rel_append h.drafts (.cons ⟨List.cons_ne_nil _ _, ?_, ?_, ?_⟩ .nil)
  · exact List.forall_mem_singleton.mpr ⟨block, hblock, .inr htext⟩
  · simp [join]
  · refine List.forall_mem_singleton.mpr ?_
    rw [← h.headings]

/-- The builder's level is that of the heading. -/
theorem levelOf_eq (block : Block) : Builder.levelOf block = effectiveLevel block.level := by
  unfold Builder.levelOf effectiveLevel
  cases block.level with
  | none => rfl
  | some level =>
    dsimp only
    split_ifs with hzero
    · rw [hzero]
      rfl
    · split
      · contradiction
      · rename_i h
        exact absurd (Option.some.inj h) hzero
      · rename_i h
        exact Option.some.inj h

/-- The headings behind a block. -/
theorem headingsOf_succ {block : Block} (hblock : blocks[pos]? = some block) :
    headingsOf (blocks.take (pos + 1)) =
      headingsOf (blocks.take pos) ++
        if block.type = .heading then [(effectiveLevel block.level, block.text)] else [] := by
  obtain ⟨hlt, rfl⟩ := List.getElem?_eq_some_iff.mp hblock
  rw [← List.take_concat_get' blocks pos hlt, headingsOf, List.filterMap_append]
  split_ifs with hheading <;> simp [headingsOf, hheading]

/-- A block that is no heading leaves the path as it is. -/
theorem Trace.Inv.next {block : Block} (h : t.Inv cfg blocks pos)
    (hblock : blocks[pos]? = some block)
    (htype : block.type ≠ .heading) : t.Inv cfg blocks (pos + 1) := by
  have hpath : headingPath blocks (pos + 1) = headingPath blocks pos := by
    rw [headingPath, headingsOf_succ hblock, if_neg htype, List.append_nil, headingPath]
  exact ⟨h.held, h.headings.trans hpath.symm, h.sources, fun x hx => (h.here x hx).trans hpath.symm,
    h.drafts⟩

/-- **A block keeps the invariant.** -/
theorem addBlock_inv {block : Block} (h : t.Inv cfg blocks pos)
    (hblock : blocks[pos]? = some block) :
    (t.addBlock cfg pos block).Inv cfg blocks (pos + 1) := by
  rw [Trace.addBlock]
  cases htype : block.type with
  | heading =>
    obtain ⟨hinv, hheld⟩ := flush_inv h
    have hflushed := hinv.held
    have hheadings := hinv.headings
    have hdrafts := hinv.drafts
    rw [flush_builder] at hflushed hheadings hdrafts
    refine ⟨hflushed, ?_, ?_, ?_, hdrafts⟩
    · rw [headingPath, headingsOf_succ hblock, if_pos htype, Enclosing.enclosing_concat,
        ← headingPath, ← hheadings, ← levelOf_eq]
      rfl
    · rw [hheld]
      nofun
    · rw [hheld]
      nofun
  | table =>
    have hrows : ((packTable block cfg).foldl (Trace.addRow block.page pos) (t.flush cfg)).Inv cfg
        blocks pos :=
      List.foldlRecOn (motive := Trace.Inv cfg blocks pos) _ _ (flush_inv h).1
        fun _ hinv _ htext => addRow_inv hinv hblock htext
    have hnext := hrows.next hblock (by rw [htype]; decide)
    exact ⟨hnext.held, hnext.headings, hnext.sources, hnext.here, hnext.drafts⟩
  | paragraph | listItem | code =>
    have hpieces : ((splitToLimit block.text cfg.targetTokens).foldl
        (Trace.addPiece cfg block.page pos) t).Inv cfg blocks pos :=
      List.foldlRecOn (motive := Trace.Inv cfg blocks pos) _ _ h
        fun _ hinv _ hpiece => addPiece_inv hinv hblock hpiece
    exact hpieces.next hblock (by rw [htype]; decide)

/-- The invariant along the blocks that are left. -/
theorem addBlocks_inv (rest : List Block) (h : t.Inv cfg blocks pos)
    (hrest : blocks.drop pos = rest) :
    ∃ pos', (t.addBlocks cfg pos rest).Inv cfg blocks pos' := by
  induction rest generalizing pos t with
  | nil => exact ⟨pos, h⟩
  | cons block rest ih =>
    have hblock : blocks[pos]? = some block := by
      rw [← List.head?_drop, hrest, List.head?_cons]
    refine ih (addBlock_inv h hblock) ?_
    rw [← List.tail_drop, hrest, List.tail_cons]

/-! ## 5. The result -/

/-- **`heading_path` is the chain of the enclosing headings.**  The drafts are those of the code,
and each bears the titles of the headings in front of its content that no later one of their level
or above ends, for every block it holds a piece of; the levels along a path increase strictly. -/
theorem heading_path (doc : NormalizedDocument) (cfg : ChunkingConfig) :
    List.Forall₂ (Headed cfg doc.blocks) (chunk doc cfg).list (trace doc cfg).contents ∧
      ∀ pos, (headingPath doc.blocks pos).Pairwise fun x y => x.1 < y.1 := by
  refine ⟨?_, fun pos => Enclosing.enclosing_pairwise _⟩
  have hstart : Trace.Inv cfg doc.blocks 0 {} := ⟨rfl, rfl, nofun, nofun, .nil⟩
  obtain ⟨pos, hinv⟩ := addBlocks_inv doc.blocks hstart rfl
  rw [← trace_builder]
  exact (flush_inv hinv).1.drafts

end AtlasKnowledge.Chunking
