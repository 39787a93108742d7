/-
# What the chunks of a document hold

A text chunk is the overlap with the chunk before, the heading of its section and its body.
`Faithful` says what these are: the bodies are the document's texts, apart from newlines, and none
goes across a heading or a table; a heading opens its section only; an overlap is the end of the
body before it, in the same section.

* `chunks_content`, `chunks_right`: the two halves, by induction on the blocks;
* `faithful`: every document is chunked so, with any configuration;
* `not_faithful`: with a negative budget the empty overlap is not within it.
-/
import AtlasKnowledge.Chunking.Runs

namespace AtlasKnowledge.Chunking

open Packing (pack)
open Str (nonSpace)

/-! ## 1. What is promised -/

/-- A text without its newlines. -/
def unbroken (text : Text) : Text := text.filter fun c => c ≠ '\n'

/-- `_TEXT_BLOCK_TYPES`. -/
def textBlockTypes : List BlockType := [.paragraph, .listItem, .code]

/-- The texts of the paragraphs, list items and code blocks, with their places. -/
def placedTexts (place : Place) : List Block → List (Place × Text)
  | [] => []
  | block :: blocks =>
    match block.type with
    | .heading => placedTexts { place with headings := place.headings + 1 } blocks
    | .table => placedTexts { place with tables := place.tables + 1 } blocks
    | .paragraph | .listItem | .code => (place, block.text) :: placedTexts place blocks

/-- The bodies of the text chunks, with their places. -/
def placedBodies (chunks : List Chunk) : List (Place × Text) :=
  chunks.filterMap fun c => match c with
    | .text place part => some (place, part.body)
    | .table _ => none

/-- The texts at some places, one after the other. -/
def textsAt (P : Place → Bool) (texts : List (Place × Text)) : Text :=
  (texts.filter fun x => P x.1).flatMap Prod.snd

def headingTexts (blocks : List Block) : List Text :=
  (blocks.filter fun block => block.type = .heading).map Block.text

/-- The heading that opens a section; the blocks in front of the first heading have none. -/
def openingHeading (blocks : List Block) : Nat → Text
  | 0 => []
  | n + 1 => (headingTexts blocks)[n]?.getD []

/-- It is a text chunk of the section. -/
def Chunk.inSection (n : Nat) : Chunk → Bool
  | .text place _ => place.headings = n
  | .table _ => false

/-- The chunk right before, if it is a text chunk of the section. -/
def previous (n : Nat) (before : List Chunk) : Option Part :=
  match before.getLast? with
  | some (.text place part) => if place.headings = n then some part else none
  | _ => none

/-- The overlap is right: there is none, or it is the end of the body before and `fits`. -/
def OverlapRight (fits : Text → Prop) (overlap : Text) : Option Part → Prop
  | none => overlap = []
  | some prev => nonSpace overlap <:+ nonSpace prev.body ∧ fits overlap

/-- The drafts are made of these chunks, which hold the document's content. -/
structure Faithful (fits : Text → Prop) (blocks : List Block) (drafts : List ChunkDraft)
    (chunks : List Chunk) : Prop where
  outs : drafts.map (fun draft => (draft.text, draft.info.blockType)) = chunks.map Chunk.out
  content : unbroken (textsAt (fun _ => true) (placedBodies chunks))
    = unbroken (textsAt (fun _ => true) (placedTexts {} blocks))
  unmixed : ∀ place, unbroken (textsAt (fun p => p = place) (placedBodies chunks))
    = unbroken (textsAt (fun p => p = place) (placedTexts {} blocks))
  heading : ∀ before place part after, chunks = before ++ .text place part :: after →
    part.heading = if before.any (Chunk.inSection place.headings) then []
      else openingHeading blocks place.headings
  overlap : ∀ before place part after, chunks = before ++ .text place part :: after →
    OverlapRight fits part.overlap (previous place.headings before)

/-! ## 2. Content -/

variable {cfg : ChunkingConfig} {P : Place → Bool}

theorem unbroken_append (s t : Text) : unbroken (s ++ t) = unbroken s ++ unbroken t :=
  List.filter_append _ _

theorem unbroken_flatten (texts : List Text) :
    unbroken texts.flatten = (texts.map unbroken).flatten := List.filter_flatten

theorem unbroken_join (texts : List Text) : unbroken (join '\n' texts) = unbroken texts.flatten :=
  filter_join (by decide) texts

theorem textsAt_append (texts texts' : List (Place × Text)) :
    textsAt P (texts ++ texts') = textsAt P texts ++ textsAt P texts' := by
  rw [textsAt, List.filter_append, List.flatMap_append]
  rfl

theorem placedBodies_append (chunks chunks' : List Chunk) :
    placedBodies (chunks ++ chunks') = placedBodies chunks ++ placedBodies chunks' :=
  List.filterMap_append

theorem placedBodies_table (texts : List Text) : placedBodies (texts.map .table) = [] := by
  induction texts with
  | nil => rfl
  | cons text texts ih => exact ih

/-- Texts at one place. -/
theorem textsAt_same (place : Place) (texts : List Text) :
    textsAt P (texts.map fun text => (place, text)) = if P place then texts.flatten else [] := by
  induction texts with
  | nil => simp [textsAt]
  | cons text texts ih =>
    rw [List.map_cons, ← List.singleton_append, textsAt_append, ih]
    by_cases h : P place <;> simp [textsAt, h]

theorem bodies_partsFrom (overlap heading : Text) (groups : List (List Text)) :
    (partsFrom cfg overlap heading groups).map Part.body = groups.map (join '\n') := by
  induction groups generalizing overlap heading with
  | nil => rfl
  | cons group groups ih => rw [partsFrom, List.map_cons, List.map_cons, ih]

theorem flatten_pieces (run : List Block) :
    (pieces cfg run).flatten = (run.map Block.text).flatten := by
  induction run with
  | nil => rfl
  | cons block run ih =>
    rw [pieces, List.flatMap_cons, List.flatten_append, flatten_splitToLimit, List.map_cons,
      List.flatten_cons]
    exact congrArg _ ih

/-- **The bodies of a run** are the texts of its blocks. -/
theorem run_content (place : Place) (heading : Text) (run : List Block) :
    unbroken (textsAt P (placedBodies (runChunks cfg place heading run)))
      = unbroken (textsAt P (run.map fun block => (place, block.text))) := by
  have hbodies : placedBodies (runChunks cfg place heading run)
      = ((groups cfg run).map (join '\n')).map fun body => (place, body) := by
    rw [← bodies_partsFrom [] heading, placedBodies, runChunks, List.filterMap_map, List.map_map,
      ← List.filterMap_eq_map]
    rfl
  have hgroups : unbroken ((groups cfg run).map (join '\n')).flatten
      = unbroken (run.map Block.text).flatten := by
    calc
      unbroken ((groups cfg run).map (join '\n')).flatten
          = unbroken ((groups cfg run).map List.flatten).flatten := by
        rw [unbroken_flatten, unbroken_flatten, List.map_map, List.map_map]
        congr 1
        exact List.map_congr_left fun group _ => unbroken_join group
      _ = unbroken (pieces cfg run).flatten := by
        rw [← List.flatten_flatten, groups, Packing.flatten_pack]
      _ = unbroken (run.map Block.text).flatten := by rw [flatten_pieces]
  have hplaced : (run.map fun block => (place, block.text))
      = (run.map Block.text).map fun text => (place, text) := by
    rw [List.map_map]
    rfl
  rw [hbodies, hplaced, textsAt_same, textsAt_same]
  split_ifs
  · exact hgroups
  · rfl

/-- **Content**: at any places the bodies are the texts. -/
theorem chunks_content (place : Place) (heading : Text) (run blocks : List Block) :
    unbroken (textsAt P (placedBodies (chunksFrom cfg place heading run blocks)))
      = unbroken (textsAt P
          (run.map (fun block => (place, block.text)) ++ placedTexts place blocks)) := by
  induction blocks generalizing place heading run with
  | nil =>
    rw [placedTexts, List.append_nil]
    exact run_content place heading run
  | cons block blocks ih =>
    rw [chunksFrom, placedTexts]
    cases block.type with
    | heading =>
      simp only [placedBodies_append, textsAt_append, unbroken_append, run_content, ih]
      rfl
    | table =>
      simp only [placedBodies_append, placedBodies_table, textsAt_append, unbroken_append,
        run_content, ih]
      simp [textsAt, unbroken]
    | paragraph | listItem | code =>
      refine (ih place heading (run ++ [block])).trans ?_
      rw [List.map_append, List.append_assoc]
      rfl

/-! ## 3. Headings and overlaps -/

/-- A chunk is right behind the chunks before it. -/
def Right (fits : Text → Prop) (opening : Nat → Text) (before : List Chunk) : Chunk → Prop
  | .text place part =>
    part.heading = (if before.any (Chunk.inSection place.headings) then []
      else opening place.headings) ∧
    OverlapRight fits part.overlap (previous place.headings before)
  | .table _ => True

/-- Each chunk is right. -/
def AllRight (fits : Text → Prop) (opening : Nat → Text) (before : List Chunk) :
    List Chunk → Prop
  | [] => True
  | c :: chunks => Right fits opening before c ∧ AllRight fits opening (before ++ [c]) chunks

variable {fits : Text → Prop} {opening : Nat → Text} {before : List Chunk}

theorem allRight_append (chunks chunks' : List Chunk) :
    AllRight fits opening before (chunks ++ chunks') ↔
      AllRight fits opening before chunks ∧ AllRight fits opening (before ++ chunks) chunks' := by
  induction chunks generalizing before with
  | nil => simp [AllRight]
  | cons c chunks ih =>
    rw [List.cons_append, AllRight, AllRight, ih, List.append_assoc, List.singleton_append,
      and_assoc]

theorem right_of_allRight {chunks after : List Chunk} {c : Chunk}
    (h : AllRight fits opening [] chunks) (hsplit : chunks = before ++ c :: after) :
    Right fits opening before c := by
  rw [hsplit, allRight_append] at h
  exact h.2.1

theorem allRight_table (texts : List Text) :
    AllRight fits opening before (texts.map .table) := by
  induction texts generalizing before with
  | nil => trivial
  | cons text texts ih => exact ⟨trivial, ih⟩

/-- The groups of a run, from a group on whose heading and overlap are right. -/
theorem allRight_partsFrom (hfits : ∀ text, fits (tailWithin text cfg.overlapTokens))
    (place : Place) (groups : List (List Text)) (overlap heading : Text)
    (hheading : heading = if before.any (Chunk.inSection place.headings) then []
      else opening place.headings)
    (hoverlap : OverlapRight fits overlap (previous place.headings before)) :
    AllRight fits opening before ((partsFrom cfg overlap heading groups).map (.text place)) := by
  induction groups generalizing overlap heading before with
  | nil => trivial
  | cons group groups ih =>
    rw [partsFrom, List.map_cons]
    refine ⟨⟨hheading, hoverlap⟩, ih _ _ ?_ ?_⟩
    · simp [Chunk.inSection]
    · have hlast : previous place.headings
          (before ++ [.text place ⟨overlap, heading, join '\n' group⟩])
          = some ⟨overlap, heading, join '\n' group⟩ := by
        simp [previous]
      rw [hlast]
      exact ⟨(tailWithin_spec _ _).1, hfits _⟩

/-- No overlap is always right. -/
theorem overlapRight_nil (hfits : fits []) (prev : Option Part) : OverlapRight fits [] prev := by
  cases prev with
  | none => rfl
  | some prev => exact ⟨List.nil_suffix, hfits⟩

/-- A run that is not empty has chunks, all of them at its place. -/
theorem runChunks_any (place : Place) (heading : Text) {run : List Block} (h : run ≠ []) :
    (runChunks cfg place heading run).any (Chunk.inSection place.headings) = true := by
  obtain ⟨block, run, rfl⟩ := List.exists_cons_of_ne_nil h
  obtain ⟨piece, more, hpiece⟩ :=
    List.exists_cons_of_ne_nil (splitToLimit_ne_nil block.text cfg.targetTokens)
  obtain ⟨rest, others, hgroups⟩ : ∃ rest others,
      groups cfg (block :: run) = (piece :: rest) :: others := by
    rw [groups, pieces, List.flatMap_cons, hpiece, List.cons_append]
    exact Packing.head_pack piece _
  rw [runChunks, hgroups, partsFrom, List.map_cons, List.any_cons]
  simp [Chunk.inSection]

theorem runChunks_headings (place : Place) (heading : Text) (run : List Block) :
    ∀ c ∈ runChunks cfg place heading run, ∀ n, c.inSection n = true → n = place.headings := by
  intro c hc n hn
  obtain ⟨part, -, rfl⟩ := List.mem_map.mp hc
  exact (of_decide_eq_true hn).symm

/-- **Headings and overlaps**: behind chunks of no later section each chunk is right. -/
theorem chunks_right (hfits : ∀ text, fits (tailWithin text cfg.overlapTokens)) (hnil : fits [])
    (blocks : List Block) (place : Place) (heading : Text) (run : List Block)
    (hsections : ∀ c ∈ before, ∀ n, c.inSection n = true → n ≤ place.headings)
    (hheading : heading = if before.any (Chunk.inSection place.headings) then []
      else opening place.headings)
    (hopening : ∀ i text, (headingTexts blocks)[i]? = some text →
      opening (place.headings + 1 + i) = text) :
    AllRight fits opening before (chunksFrom cfg place heading run blocks) := by
  induction blocks generalizing place heading run before with
  | nil => exact allRight_partsFrom hfits place _ _ _ hheading (overlapRight_nil hnil _)
  | cons block blocks ih =>
    have hrun : AllRight fits opening before (runChunks cfg place heading run) :=
      allRight_partsFrom hfits place _ _ _ hheading (overlapRight_nil hnil _)
    have hupto : ∀ c ∈ before ++ runChunks cfg place heading run, ∀ n,
        c.inSection n = true → n ≤ place.headings := by
      intro c hc n hn
      rcases List.mem_append.mp hc with hc | hc
      · exact hsections c hc n hn
      · exact (runChunks_headings place heading run c hc n hn).le
    rw [chunksFrom]
    cases htype : block.type with
    | heading =>
      have htexts : headingTexts (block :: blocks) = block.text :: headingTexts blocks := by
        simp [headingTexts, htype]
      refine (allRight_append _ _).mpr ⟨hrun, ih _ _ [] ?_ ?_ ?_⟩
      · exact fun c hc n hn => Nat.le_succ_of_le (hupto c hc n hn)
      · -- no chunk so far is one of the new section
        have hnone : ¬ (before ++ runChunks cfg place heading run).any
            (Chunk.inSection (place.headings + 1)) = true := by
          intro hany
          obtain ⟨c, hc, hn⟩ := List.any_eq_true.mp hany
          exact absurd (hupto c hc _ hn) (Nat.not_succ_le_self _)
        rw [if_neg hnone]
        exact (hopening 0 block.text (by rw [htexts]; rfl)).symm
      · intro i text hi
        have hindex : place.headings + 1 + 1 + i = place.headings + 1 + (i + 1) := by omega
        rw [hindex]
        exact hopening (i + 1) text (by rw [htexts]; exact hi)
    | table =>
      have htexts : headingTexts (block :: blocks) = headingTexts blocks := by
        simp [headingTexts, htype]
      rw [List.append_assoc]
      refine (allRight_append _ _).mpr ⟨hrun, (allRight_append _ _).mpr
        ⟨allRight_table _, ih _ _ [] ?_ ?_ ?_⟩⟩
      · intro c hc n hn
        rcases List.mem_append.mp hc with hc | hc
        · exact hupto c hc n hn
        · obtain ⟨text, -, rfl⟩ := List.mem_map.mp hc
          cases hn
      · have hrows : ((packTable block cfg).map Chunk.table).any (Chunk.inSection place.headings)
            = false := by
          rw [List.any_map]
          exact List.any_eq_false.mpr fun text _ => Bool.false_ne_true
        rw [List.any_append, List.any_append, hrows, Bool.or_false]
        by_cases hempty : run = []
        · subst hempty
          have hnone : runChunks cfg place heading [] = [] := rfl
          rw [if_pos rfl, hnone, List.any_nil, Bool.or_false]
          exact hheading
        · rw [if_neg hempty, runChunks_any place heading hempty, Bool.or_true, if_pos rfl]
      · intro i text hi
        exact hopening i text (by rw [htexts]; exact hi)
    | paragraph | listItem | code =>
      have htexts : headingTexts (block :: blocks) = headingTexts blocks := by
        simp [headingTexts, htype]
      exact ih place heading (run ++ [block]) hsections hheading
        fun i text hi => hopening i text (by rw [htexts]; exact hi)

/-! ## 4. Every document -/

/-- **Chunking neither loses, repeats nor mixes content.** -/
theorem faithful (doc : NormalizedDocument) (cfg : ChunkingConfig) :
    ∃ chunks, Faithful
      (fun overlap => overlap = [] ∨ (estimateTokens overlap : Int) ≤ cfg.overlapTokens)
      doc.blocks (chunk doc cfg).list chunks := by
  have hright : AllRight
      (fun overlap => overlap = [] ∨ (estimateTokens overlap : Int) ≤ cfg.overlapTokens)
      (openingHeading doc.blocks) [] (chunksOf cfg doc) := by
    refine chunks_right (fun text => (tailWithin_spec text _).2.1) (.inl rfl) doc.blocks {} [] []
      ?_ rfl ?_
    · exact fun c hc => absurd hc List.not_mem_nil
    · intro i text hi
      have hindex : (0 + 1 + i : Nat) = i + 1 := by omega
      rw [hindex, openingHeading, hi, Option.getD_some]
  exact ⟨chunksOf cfg doc,
    { outs := chunk_eq cfg doc
      content := chunks_content {} [] [] doc.blocks
      unmixed := fun place => chunks_content {} [] [] doc.blocks
      heading := fun _ _ _ _ hsplit => (right_of_allRight hright hsplit).1
      overlap := fun _ _ _ _ hsplit => (right_of_allRight hright hsplit).2 }⟩

/-! ### A negative budget -/

/-- One paragraph of two characters. -/
def sampleDocument : NormalizedDocument where
  blocks := [{ type := .paragraph, text := ['\u5b57', '\u5b57'] }]
  info := { sourceMime := "text/plain" }

/-- Each character is a chunk, and nothing is within the budget of the overlap. -/
def sampleConfig : ChunkingConfig where
  targetTokens := 1
  overlapTokens := -1

theorem body_of_text {part : Part} (hoverlap : part.overlap = []) (hheading : part.heading = []) :
    part.text = part.body := by
  rw [Part.text, hoverlap, hheading]
  by_cases hbody : part.body = []
  · simp [hbody, join]
  · simp [hbody, join]

/-- A body with text stands at a place where the document has text. -/
theorem Faithful.place_mem {blocks : List Block} {drafts : List ChunkDraft} {chunks : List Chunk}
    (h : Faithful fits blocks drafts chunks) {place : Place} {part : Part}
    (hchunk : .text place part ∈ chunks) (hbody : unbroken part.body ≠ []) :
    ∃ text, (place, text) ∈ placedTexts {} blocks := by
  have hmem : (place, part.body) ∈ placedBodies chunks :=
    List.mem_filterMap.mpr ⟨_, hchunk, rfl⟩
  obtain ⟨c, hc⟩ := List.exists_mem_of_ne_nil _ hbody
  obtain ⟨hcbody, hbreak⟩ := List.mem_filter.mp hc
  have hc' : c ∈ unbroken (textsAt (fun p => p = place) (placedBodies chunks)) := by
    have hat : (place, part.body) ∈ (placedBodies chunks).filter fun x => x.1 = place :=
      List.mem_filter.mpr ⟨hmem, decide_eq_true rfl⟩
    exact List.mem_filter.mpr ⟨List.mem_flatMap.mpr ⟨(place, part.body), hat, hcbody⟩, hbreak⟩
  rw [h.unmixed place] at hc'
  obtain ⟨⟨p, text⟩, htext, -⟩ := List.mem_flatMap.mp (List.mem_filter.mp hc').1
  obtain ⟨hplaced, hp⟩ := List.mem_filter.mp htext
  obtain rfl : p = place := of_decide_eq_true hp
  exact ⟨text, hplaced⟩

theorem not_faithful :
    ¬ ∀ (doc : NormalizedDocument) (cfg : ChunkingConfig),
      (∀ block ∈ doc.blocks, block.type ∈ textBlockTypes → block.text ≠ []) →
      ∃ chunks, Faithful (fun overlap => (estimateTokens overlap : Int) ≤ cfg.overlapTokens)
        doc.blocks (chunk doc cfg).list chunks := by
  intro hall
  obtain ⟨chunks, h⟩ := hall sampleDocument sampleConfig (by decide)
  have houts : (chunk sampleDocument sampleConfig).list.map
      (fun draft => (draft.text, draft.info.blockType))
        = [(['\u5b57'], "text"), (['\u5b57'], "text")] := by decide +kernel
  have hchunks := h.outs.symm.trans houts
  obtain ⟨c₀, rest, rfl, hout₀, hrest⟩ := List.map_eq_cons_iff.mp hchunks
  obtain ⟨c₁, rest, rfl, hout₁, hrest⟩ := List.map_eq_cons_iff.mp hrest
  obtain rfl := List.map_eq_nil_iff.mp hrest
  have hopening : ∀ n, openingHeading sampleDocument.blocks n = [] := by
    intro n
    cases n <;> rfl
  have hplaces : ∀ place part, .text place part ∈ [c₀, c₁] → part.body = ['\u5b57'] →
      place = {} := by
    intro place part hmem hbody
    obtain ⟨text, htext⟩ := h.place_mem hmem (by rw [hbody]; decide)
    exact (Prod.mk.inj (List.mem_singleton.mp htext)).1
  cases c₀ with
  | table text => exact absurd (Prod.mk.inj hout₀).2 (by decide)
  | text place₀ part₀ =>
    cases c₁ with
    | table text => exact absurd (Prod.mk.inj hout₁).2 (by decide)
    | text place₁ part₁ =>
      have hheading₀ := h.heading [] place₀ part₀ _ rfl
      have hheading₁ := h.heading [.text place₀ part₀] place₁ part₁ [] rfl
      rw [hopening, ite_self] at hheading₀ hheading₁
      have hoverlap₀ : part₀.overlap = [] := h.overlap [] place₀ part₀ _ rfl
      have hoverlap₁ := h.overlap [.text place₀ part₀] place₁ part₁ [] rfl
      have hbody₀ := (body_of_text hoverlap₀ hheading₀).symm.trans (Prod.mk.inj hout₀).1
      obtain rfl := hplaces place₀ part₀ List.mem_cons_self hbody₀
      by_cases hsame : place₁.headings = 0
      · -- the empty overlap is not within the budget
        have hprevious : previous place₁.headings [.text {} part₀] = some part₀ := by
          rw [hsame]
          rfl
        rw [hprevious] at hoverlap₁
        have hfits : (estimateTokens part₁.overlap : Int) ≤ -1 := hoverlap₁.2
        omega
      · -- a chunk of another section would hold text that is not there
        have hprevious : previous place₁.headings [.text {} part₀] = none :=
          if_neg (Ne.symm hsame)
        rw [hprevious] at hoverlap₁
        have hbody₁ := (body_of_text hoverlap₁ hheading₁).symm.trans (Prod.mk.inj hout₁).1
        obtain rfl := hplaces place₁ part₁ (List.mem_cons_of_mem _ List.mem_cons_self) hbody₁
        exact hsame rfl

end AtlasKnowledge.Chunking
