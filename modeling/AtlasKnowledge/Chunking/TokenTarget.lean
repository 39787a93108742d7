/-
# The token target

The packers add up the estimates of the pieces, and put a separator between each two of them that
they do not count.  What makes up for it is the rounding: an estimate has room for up to three
characters more.  A group exceeds the target when it has more separators than room.

* `estimateTokens_join`: the estimate of a group, with its separators;
* `target_iff`: exactly when the chunks of a document without headings keep to the target;
* `not_target`: two paragraphs of four letters do not.
-/
import AtlasKnowledge.Chunking.Blank
import AtlasKnowledge.Chunking.SplitLimit

namespace AtlasKnowledge.Chunking

open Packing (pack packFrom total)

/-! ## 1. Room for separators -/

/-- The characters that a text can take on without a token more. -/
def spare (text : Text) : Nat := 4 * ((others text + 3) / 4) - others text

/-- The characters that a group can take on within the limit. -/
def room (limit : Int) (group : List Text) : Int :=
  4 * (limit - total estimateTokens group) + (group.map spare).sum

/-- The separators between the pieces of the group find room. -/
def SeparatorsFit (limit : Int) (group : List Text) : Prop :=
  (group.length : Int) - 1 ≤ room limit group

instance (limit : Int) (group : List Text) : Decidable (SeparatorsFit limit group) :=
  inferInstanceAs (Decidable (_ ≤ _))

/-! ## 2. The property -/

/-- The body rows of a table, as `pack_table` groups them. -/
def rowGroups (cfg : ChunkingConfig) (block : Block) : List (List Text) :=
  match block.rows.getD [] with
  | header :: row :: rows => pack cfg.targetTokens estimateTokens (tableLines header (row :: rows))
  | _ => []

/-- The text of a table chunk that holds more than one row. -/
def HoldsRows (cfg : ChunkingConfig) (blocks : List Block) (text : Text) : Prop :=
  ∃ block ∈ blocks, block.type = .table ∧ ∃ group ∈ rowGroups cfg block,
    1 < group.length ∧ text = join rowSeparator group

/-- Text chunks, and table chunks of more than one row, have the target's tokens at most. -/
structure KeepsTarget (cfg : ChunkingConfig) (doc : NormalizedDocument) : Prop where
  text : ∀ draft ∈ (chunk doc cfg).list, draft.info.blockType = "text" →
    (draft.tokens : Int) ≤ cfg.targetTokens
  table : ∀ draft ∈ (chunk doc cfg).list, draft.info.blockType = "table" →
    HoldsRows cfg doc.blocks draft.text → (draft.tokens : Int) ≤ cfg.targetTokens

variable {cfg : ChunkingConfig} {limit : Int} {group : List Text} {sep : Char}

/-! ## 3. The estimate of a group -/

theorem countP_join (p : Char → Bool) (h : group ≠ []) :
    (join sep group).countP p =
      (group.map (List.countP p)).sum + if p sep then group.length - 1 else 0 := by
  induction group with
  | nil => exact absurd rfl h
  | cons text group ih =>
    cases group with
    | nil => simp [join]
    | cons next group =>
      have hrest := ih (List.cons_ne_nil _ _)
      rw [join] at hrest ⊢
      rw [List.intercalate_cons_cons, List.countP_append, List.countP_append, hrest]
      simp only [List.countP_singleton, List.map_cons, List.sum_cons, List.length_cons]
      split_ifs <;> omega

/-- The room, without the detour over the pieces. -/
theorem room_eq (limit : Int) (group : List Text) :
    room limit group = 4 * (limit - (group.map (List.countP isCjk)).sum)
      - (group.map others).sum := by
  induction group generalizing limit with
  | nil => simp [room]
  | cons text group ih =>
    have hrest := ih (limit - estimateTokens text)
    have hestimate := estimateTokens_eq text
    rw [room] at hrest ⊢
    simp only [total, List.map_cons, List.sum_cons, spare] at hrest ⊢
    omega

/-- **The estimate of a group**: its separators find room exactly if it keeps to the limit. -/
theorem estimateTokens_join (hsep : isCjk sep = false) (h : group ≠ []) :
    (estimateTokens (join sep group) : Int) ≤ limit ↔ SeparatorsFit limit group := by
  have hcjk : (join sep group).countP isCjk = (group.map (List.countP isCjk)).sum := by
    rw [countP_join isCjk h, hsep]
    rfl
  have hothers : others (join sep group) = (group.map others).sum + (group.length - 1) := by
    rw [others, countP_join _ h, hsep]
    rfl
  have hlength : 0 < group.length := List.length_pos_iff.mpr h
  rw [SeparatorsFit, room_eq, estimateTokens_eq, hcjk, hothers]
  omega

/-- A piece alone has no separator. -/
theorem separatorsFit_singleton (piece : Text) (h : (estimateTokens piece : Int) ≤ limit) :
    SeparatorsFit limit [piece] := by
  have hjoin : join '\n' [piece] = piece := by simp [join]
  rw [← @estimateTokens_join _ _ '\n' (by decide) (List.cons_ne_nil _ _), hjoin]
  exact h

/-! ## 4. The pieces -/

/-- The pieces of the blocks keep to the target. -/
theorem pieces_le (htarget : 1 ≤ cfg.targetTokens) (run : List Block) :
    ∀ piece ∈ pieces cfg run, (estimateTokens piece : Int) ≤ cfg.targetTokens := by
  intro piece hpiece
  obtain ⟨block, -, hsplit⟩ := List.mem_flatMap.mp hpiece
  exact (splitting block.text cfg.targetTokens).le htarget piece hsplit

/-! ## 5. The chunks -/

/-- A draft's tokens are the estimate of its text. -/
def Estimated (b : Builder) : Prop :=
  ∀ draft ∈ b.drafts.list, draft.tokens = estimateTokens draft.text

theorem emit_estimated {b : Builder} (h : Estimated b) (text : Text) (blockType : String)
    (page : Option Int) : Estimated (b.emit text blockType page) :=
  List.forall_mem_append.mpr ⟨h, List.forall_mem_singleton.mpr rfl⟩

theorem flush_estimated {b : Builder} (h : Estimated b) : Estimated (b.flush cfg) := by
  rw [Builder.flush]
  split_ifs
  · exact h
  · exact emit_estimated h _ _ _

theorem addBlock_estimated {b : Builder} (h : Estimated b) (block : Block) :
    Estimated (b.addBlock cfg block) := by
  have hpiece : ∀ (b : Builder) (piece : Text), Estimated b →
      Estimated (b.addPiece cfg block.page piece) := by
    intro b piece h
    rw [Builder.addPiece]
    split_ifs
    · exact flush_estimated h
    · exact h
  rw [Builder.addBlock]
  cases block.type with
  | heading => exact flush_estimated h
  | table =>
    exact List.foldlRecOn (motive := Estimated) _ _ (flush_estimated h)
      fun b hb text _ => emit_estimated hb text _ _
  | paragraph | listItem | code =>
    exact List.foldlRecOn (motive := Estimated) _ _ h fun b hb piece _ => hpiece b piece hb

theorem chunk_estimated (doc : NormalizedDocument) (cfg : ChunkingConfig) :
    ∀ draft ∈ (chunk doc cfg).list, draft.tokens = estimateTokens draft.text :=
  flush_estimated (List.foldlRecOn (motive := Estimated) doc.blocks _ (by nofun)
    fun _ hb block _ => addBlock_estimated hb block)

/-- Without a heading and an overlap a chunk is its body. -/
theorem texts_partsFrom (hoverlap : cfg.overlapTokens = 0) (groups : List (List Text)) :
    (partsFrom cfg [] [] groups).map Part.text = groups.map (join '\n') := by
  induction groups with
  | nil => rfl
  | cons group groups ih =>
    have htail : ∀ text, tailWithin text cfg.overlapTokens = [] :=
      fun text => if_pos (Int.le_of_eq hoverlap)
    rw [partsFrom, htail, List.map_cons, List.map_cons, ih, body_of_text rfl rfl]

/-- The text chunks of a run. -/
theorem run_texts (hoverlap : cfg.overlapTokens = 0) (P : Text → Prop) (place : Place)
    (run : List Block) :
    (∀ c ∈ runChunks cfg place [] run, c.out.2 = "text" → P c.out.1) ↔
      ∀ group ∈ groups cfg run, P (join '\n' group) := by
  have hparts : (∀ c ∈ runChunks cfg place [] run, c.out.2 = "text" → P c.out.1) ↔
      ∀ text ∈ (partsFrom cfg [] [] (groups cfg run)).map Part.text, P text := by
    rw [runChunks, List.forall_mem_map, List.forall_mem_map]
    exact forall₂_congr fun part _ => ⟨fun h => h rfl, fun h _ => h⟩
  rw [hparts, texts_partsFrom hoverlap, List.forall_mem_map]

/-- The text chunks of blocks without a heading. -/
theorem chunks_texts (hoverlap : cfg.overlapTokens = 0) (P : Text → Prop) (place : Place)
    (run blocks : List Block) (hheadings : ∀ block ∈ blocks, block.type ≠ .heading) :
    (∀ c ∈ chunksFrom cfg place [] run blocks, c.out.2 = "text" → P c.out.1) ↔
      ∀ r ∈ runsFrom run blocks, ∀ group ∈ groups cfg r, P (join '\n' group) := by
  induction blocks generalizing place run with
  | nil => rw [chunksFrom, runsFrom, List.forall_mem_singleton, run_texts hoverlap]
  | cons block blocks ih =>
    obtain ⟨hblock, hheadings⟩ := List.forall_mem_cons.mp hheadings
    rw [chunksFrom, runsFrom]
    cases htype : block.type with
    | heading => exact absurd htype hblock
    | table =>
      have hrows : ∀ c ∈ (packTable block cfg).map Chunk.table, c.out.2 = "text" → P c.out.1 := by
        rw [List.forall_mem_map]
        exact fun _ _ htext => absurd htext (by simp [Chunk.out])
      rw [List.forall_mem_append, List.forall_mem_append, List.forall_mem_cons,
        run_texts hoverlap, and_iff_left hrows, ite_self]
      exact and_congr_right fun _ => ih _ [] hheadings
    | paragraph | listItem | code => exact ih place (run ++ [block]) hheadings

/-- The rows of every table are chunks. -/
theorem table_mem_chunks {block : Block} {text : Text} (place : Place) (heading : Text)
    (run blocks : List Block) (hblock : block ∈ blocks) (htable : block.type = .table)
    (htext : text ∈ packTable block cfg) :
    .table text ∈ chunksFrom cfg place heading run blocks := by
  induction blocks generalizing place heading run with
  | nil => exact absurd hblock List.not_mem_nil
  | cons first blocks ih =>
    rw [chunksFrom]
    rcases List.mem_cons.mp hblock with rfl | hblock
    · simp only [htable]
      exact List.mem_append_left _ (List.mem_append_right _ (List.mem_map_of_mem htext))
    · cases first.type with
      | heading | table => exact List.mem_append_right _ (ih _ _ _ hblock)
      | paragraph | listItem | code => exact ih _ _ _ hblock

/-- A group of rows is a text of its table. -/
theorem rows_mem_packTable {block : Block} (h : group ∈ rowGroups cfg block) :
    join rowSeparator group ∈ packTable block cfg := by
  unfold rowGroups at h
  split at h
  · rename_i header row rows hrows
    have hsome : block.rows = some (header :: row :: rows) := by
      cases hblock : block.rows with
      | none => rw [hblock] at hrows; exact nomatch hrows
      | some all => rw [hblock] at hrows; exact congrArg some hrows
    rw [packTable_eq hsome]
    exact List.mem_map_of_mem h
  · exact absurd h List.not_mem_nil

theorem rowGroups_ne_nil {block : Block} (h : group ∈ rowGroups cfg block) : group ≠ [] := by
  unfold rowGroups at h
  split at h
  · exact Packing.pack_ne_nil group h
  · exact absurd h List.not_mem_nil

/-! ## 6. The result -/

/-- The text half: a group of one piece keeps to the target anyway. -/
theorem text_iff {doc : NormalizedDocument}
    (hheadings : ∀ block ∈ doc.blocks, block.type ≠ .heading) (htarget : 1 ≤ cfg.targetTokens)
    (hoverlap : cfg.overlapTokens = 0) :
    (∀ draft ∈ (chunk doc cfg).list, draft.info.blockType = "text" →
        (draft.tokens : Int) ≤ cfg.targetTokens) ↔
      ∀ run ∈ runsFrom [] doc.blocks, ∀ group ∈ groups cfg run, 1 < group.length →
        SeparatorsFit cfg.targetTokens group := by
  have hdrafts : (∀ draft ∈ (chunk doc cfg).list, draft.info.blockType = "text" →
      (draft.tokens : Int) ≤ cfg.targetTokens) ↔
      ∀ out ∈ (chunk doc cfg).list.map fun draft => (draft.text, draft.info.blockType),
        out.2 = "text" → (estimateTokens out.1 : Int) ≤ cfg.targetTokens := by
    rw [List.forall_mem_map]
    exact forall₂_congr fun draft hdraft => by rw [chunk_estimated doc cfg draft hdraft]
  rw [hdrafts, chunk_eq, List.forall_mem_map, chunksOf,
    chunks_texts hoverlap (fun text => (estimateTokens text : Int) ≤ cfg.targetTokens) _ _ _
      hheadings]
  refine forall₂_congr fun run _ => forall₂_congr fun group hgroup => ?_
  have hne := Packing.pack_ne_nil group hgroup
  rw [estimateTokens_join (by decide) hne]
  refine ⟨fun h _ => h, fun h => ?_⟩
  by_cases hlength : 1 < group.length
  · exact h hlength
  · obtain ⟨piece, rfl⟩ : ∃ piece, group = [piece] := by
      refine List.length_eq_one_iff.mp ?_
      have := List.length_pos_iff.mpr hne
      omega
    refine separatorsFit_singleton piece (pieces_le htarget run piece ?_)
    rw [← @Packing.flatten_pack _ cfg.targetTokens estimateTokens (pieces cfg run)]
    exact List.mem_flatten.mpr ⟨[piece], hgroup, List.mem_cons_self⟩

/-- The table half. -/
theorem table_iff (doc : NormalizedDocument) :
    (∀ draft ∈ (chunk doc cfg).list, draft.info.blockType = "table" →
        HoldsRows cfg doc.blocks draft.text → (draft.tokens : Int) ≤ cfg.targetTokens) ↔
      ∀ block ∈ doc.blocks, block.type = .table → ∀ group ∈ rowGroups cfg block,
        1 < group.length → SeparatorsFit cfg.targetTokens group := by
  constructor
  · intro h block hblock htable group hgroup hlength
    have hmem : (join rowSeparator group, "table") ∈
        (chunk doc cfg).list.map fun draft => (draft.text, draft.info.blockType) := by
      rw [chunk_eq]
      exact List.mem_map.mpr ⟨_, table_mem_chunks _ _ _ _ hblock htable
        (rows_mem_packTable hgroup), rfl⟩
    obtain ⟨draft, hdraft, heq⟩ := List.mem_map.mp hmem
    obtain ⟨htext, htype⟩ := Prod.mk.inj heq
    have htokens := h draft hdraft htype ⟨block, hblock, htable, group, hgroup, hlength, htext⟩
    rw [chunk_estimated doc cfg draft hdraft, htext] at htokens
    exact (estimateTokens_join (by decide) (rowGroups_ne_nil hgroup)).mp htokens
  · rintro h draft hdraft - ⟨block, hblock, htable, group, hgroup, hlength, htext⟩
    rw [chunk_estimated doc cfg draft hdraft, htext]
    exact (estimateTokens_join (by decide) (rowGroups_ne_nil hgroup)).mpr
      (h block hblock htable group hgroup hlength)

/-- **When chunks keep to the target.**  Without headings and overlaps: exactly if in every group of
two or more pieces, or rows, the separators find room in what the target and the rounding of the
estimates leave. -/
theorem target_iff (doc : NormalizedDocument) (cfg : ChunkingConfig)
    (hheadings : ∀ block ∈ doc.blocks, block.type ≠ .heading) (htarget : 1 ≤ cfg.targetTokens)
    (hoverlap : cfg.overlapTokens = 0) :
    KeepsTarget cfg doc ↔
      (∀ run ∈ runsFrom [] doc.blocks, ∀ group ∈ groups cfg run, 1 < group.length →
        SeparatorsFit cfg.targetTokens group) ∧
      ∀ block ∈ doc.blocks, block.type = .table → ∀ group ∈ rowGroups cfg block,
        1 < group.length → SeparatorsFit cfg.targetTokens group := by
  rw [← text_iff hheadings htarget hoverlap, ← table_iff]
  exact ⟨fun h => ⟨h.text, h.table⟩, fun h => ⟨h.1, h.2⟩⟩

/-! ### Two paragraphs -/

/-- Four letters are a token, and two times four letters with a newline are three. -/
def twoParagraphs : NormalizedDocument where
  blocks := [{ type := .paragraph, text := ['a', 'b', 'c', 'd'] },
    { type := .paragraph, text := ['e', 'f', 'g', 'h'] }]
  info := { sourceMime := "text/plain" }

theorem target_iff_twoParagraphs : KeepsTarget ⟨3, 0⟩ twoParagraphs :=
  (target_iff twoParagraphs ⟨3, 0⟩ (by decide) (by decide) rfl).mpr (by decide)

theorem not_target :
    ¬ ∀ (doc : NormalizedDocument) (cfg : ChunkingConfig),
      (∀ block ∈ doc.blocks, block.type ≠ .heading) → 1 ≤ cfg.targetTokens →
      cfg.overlapTokens = 0 → KeepsTarget cfg doc := by
  intro h
  have htext := (h twoParagraphs ⟨2, 0⟩ (by decide) (by decide) rfl).text
  exact absurd htext (by decide +kernel)

end AtlasKnowledge.Chunking
