/-
# The blocks of a Markdown text

The parser goes through the lines once, with a buffer for the paragraph and a list for the open
fence.  Which block a line belongs to can be said of the lines alone: `classify` tells what each
line is, with nothing carried along but whether a fence is open, and `Reads` groups them.

* `paragraphBlocks_run`: the paragraph splitter leaves a run of lines in one piece;
* `markdown_scan`: the blocks the parser passes on are the groups of the lines.
-/
import AtlasKnowledge.Parsing.Text

namespace AtlasKnowledge.Parsing

open Scan Str

/-! ## 1. Lines -/

/-- What a line is: outside a fence a heading, a blank line or another one. -/
inductive Line where
  | fence
  | inside (text : Text)
  | heading (level : Nat) (text : Text)
  | blank
  | other (text : Text)
  deriving DecidableEq, Repr

/-- The lines of a text, from one on in front of which a fence is open or not. -/
def classify : Bool → List Text → List Line
  | _, [] => []
  | isOpen, line :: lines =>
    if fence.isPrefixOf (strip line) then .fence :: classify (!isOpen) lines
    else if isOpen then .inside line :: classify true lines
    else
      match atxHeading line with
      | some (level, text) => .heading level text :: classify false lines
      | none =>
        if strip line = [] then .blank :: classify false lines
        else .other line :: classify false lines

/-- A heading line: one to six hashes, white space, and the rest. -/
structure IsHeading (line : Text) (level : Nat) (text : Text) : Prop where
  bounds : 1 ≤ level ∧ level ≤ 6
  parts : ∃ gap, line = List.replicate level '#' ++ gap ++ text ∧ gap ≠ [] ∧
    ∀ c ∈ gap, isSpace c = true
  rest : ∀ c ∈ text.head?, isSpace c = false

def headingBlock (level : Nat) (text : Text) : Block :=
  { type := .heading, text := text, level := some level }

/-- The blocks of the lines: one for each fence, closed or open at the end, with the lines in it;
one for each heading line; one for each maximal run of other lines. -/
inductive Reads : List Line → List Block → Prop where
  | nil : Reads [] []
  | blank {lines : List Line} {blocks : List Block} (more : Reads lines blocks) :
      Reads (.blank :: lines) blocks
  | heading {level : Nat} {text : Text} {lines : List Line} {blocks : List Block}
      (more : Reads lines blocks) :
      Reads (.heading level text :: lines) (headingBlock level text :: blocks)
  | paragraph {run : List Text} {lines : List Line} {blocks : List Block} (nonempty : run ≠ [])
      (maximal : ∀ text, lines.head? ≠ some (.other text)) (more : Reads lines blocks) :
      Reads (run.map .other ++ lines) (paragraph (joinLines run) :: blocks)
  | closed {inside : List Text} {lines : List Line} {blocks : List Block}
      (more : Reads lines blocks) :
      Reads (.fence :: inside.map .inside ++ .fence :: lines) (codeBlock inside :: blocks)
  | unclosed {inside : List Text} :
      Reads (.fence :: inside.map .inside) [codeBlock inside]

/-! ## 2. Headings -/

/-- What `dropWhile` leaves starts with a character that it would not drop. -/
theorem head_dropWhile {p : Char → Bool} {s : Text} {c : Char} (h : c ∈ (s.dropWhile p).head?) :
    p c = false := by
  have hnot := List.head?_dropWhile_not p s
  rw [Option.mem_def.mp h] at hnot
  simpa using hnot

/-- A text cut where a predicate first fails. -/
theorem span_append {p : Char → Bool} {s t : Text} (hs : ∀ c ∈ s, p c = true)
    (ht : ∀ c ∈ t.head?, p c = false) :
    (s ++ t).takeWhile p = s ∧ (s ++ t).dropWhile p = t := by
  rw [List.takeWhile_append_of_pos hs, List.dropWhile_append_of_pos hs]
  cases t with
  | nil => exact ⟨List.append_nil s, rfl⟩
  | cons c t =>
    have hc : p c = false := ht c rfl
    rw [List.takeWhile_cons_of_neg (by simp [hc]), List.dropWhile_cons_of_neg (by simp [hc])]
    exact ⟨List.append_nil s, rfl⟩

/-- **`_ATX_HEADING`** matches the heading lines. -/
theorem atxHeading_iff (line : Text) (level : Nat) (text : Text) :
    atxHeading line = some (level, text) ↔ IsHeading line level text := by
  have hdrop : line.drop (line.takeWhile (· = '#')).length = line.dropWhile (· = '#') := by
    calc
      line.drop (line.takeWhile (· = '#')).length
          = (line.takeWhile (· = '#') ++ line.dropWhile (· = '#')).drop
              (line.takeWhile (· = '#')).length := by rw [List.takeWhile_append_dropWhile]
      _ = line.dropWhile (· = '#') := List.drop_left
  simp only [atxHeading, hdrop]
  constructor
  · intro h
    split_ifs at h with hcond
    obtain ⟨rfl, rfl⟩ := Prod.mk.inj (Option.some.inj h)
    obtain ⟨hpos, hsix, hshort⟩ := hcond
    have hhashes : List.replicate (line.takeWhile (· = '#')).length '#'
        = line.takeWhile (· = '#') := by
      refine (List.eq_replicate_iff.mpr ⟨rfl, fun c hc => ?_⟩).symm
      have hhash := List.mem_takeWhile_imp hc
      exact of_decide_eq_true hhash
    refine ⟨⟨hpos, hsix⟩, ⟨(line.dropWhile (· = '#')).takeWhile isSpace, ?_, ?_, ?_⟩, ?_⟩
    · rw [hhashes, List.append_assoc, List.takeWhile_append_dropWhile,
        List.takeWhile_append_dropWhile]
    · intro hnil
      have hwhole := List.takeWhile_append_dropWhile (p := isSpace)
        (l := line.dropWhile (· = '#'))
      rw [hnil, List.nil_append] at hwhole
      rw [hwhole] at hshort
      exact absurd hshort (Nat.lt_irrefl _)
    · exact fun c hc => List.mem_takeWhile_imp hc
    · exact fun c hc => head_dropWhile hc
  · rintro ⟨⟨hpos, hsix⟩, ⟨gap, rfl, hgap, hspace⟩, hrest⟩
    -- white space is no hash
    have hstop : ∀ c ∈ (gap ++ text).head?, decide (c = '#') = false := by
      intro c hc
      obtain ⟨d, gap, rfl⟩ := List.exists_cons_of_ne_nil hgap
      obtain rfl := Option.some.inj hc
      have hd := hspace d List.mem_cons_self
      refine decide_eq_false ?_
      rintro rfl
      exact absurd hd (by decide)
    obtain ⟨htake, hleft⟩ := @span_append (· = '#') (List.replicate level '#') (gap ++ text)
      (fun c hc => decide_eq_true (List.eq_of_mem_replicate hc)) hstop
    rw [List.append_assoc, htake, hleft, (span_append hspace hrest).2, List.length_replicate,
      List.length_append]
    have hlength := List.length_pos_iff.mpr hgap
    rw [if_pos ⟨hpos, hsix, by omega⟩]

/-! ## 3. Runs -/

/-- A line that is part of a paragraph. -/
def IsOther (line : Text) : Prop := '\n' ∉ line ∧ strip line ≠ []

/-- **The paragraph splitter does not split a run**: between two line ends of it there is a line,
and that is not blank. -/
theorem paragraphBlocks_run {run : List Text} (hne : run ≠ []) (h : ∀ line ∈ run, IsOther line) :
    paragraphBlocks (joinLines run) = [paragraph (joinLines run)] := by
  have hclean : Clean paragraphSplit (joinLines run) [] := by
    intro before c htext _
    rw [List.append_nil]
    by_contra hhit
    obtain ⟨ws, rest, rfl, hws⟩ := paragraphSplit_hit hhit
    have hlf : '\n' ∉ ws := fun hmem => absurd (hws '\n' hmem) (by decide)
    have hsplit : (joinLines run).splitOn '\n' = run :=
      List.splitOn_intercalate '\n' (fun line hline => (h line hline).1) hne
    have hmem : ws ∈ run := by
      rw [← hsplit, htext, List.cons_append, List.splitOn_append_cons_self,
        List.splitOn_append_cons_self_of_not_mem hlf]
      exact List.mem_append_right _ List.mem_cons_self
    refine (h ws hmem).2 (strip_eq_nil.mpr fun c hc => ?_)
    have hblank := hws c hc
    simp only [isBlank, decide_eq_true_eq] at hblank
    rcases hblank with rfl | rfl <;> decide
  rw [paragraphBlocks, split_eq_singleton hclean]
  rfl

/-! ## 4. The loop on classified lines -/

/-- One line of the loop, when it is known what the line is. -/
def scanLine (s : MarkdownState) : Line → MarkdownState
  | .fence =>
    match s.fenceLines with
    | none => { flushParagraph s with fenceLines := some [] }
    | some lines => { s with blocks := s.blocks ++ [codeBlock lines], fenceLines := none }
  | .inside line => { s with fenceLines := s.fenceLines.map fun lines => lines ++ [line] }
  | .heading level text =>
    { flushParagraph s with blocks := (flushParagraph s).blocks ++ [headingBlock level text] }
  | .blank => flushParagraph s
  | .other line => { s with buffer := s.buffer ++ [line] }

@[simp] theorem flushParagraph_fenceLines (s : MarkdownState) :
    (flushParagraph s).fenceLines = s.fenceLines := by
  unfold flushParagraph
  split_ifs <;> rfl

@[simp] theorem flushParagraph_buffer (s : MarkdownState) : (flushParagraph s).buffer = [] := by
  unfold flushParagraph
  split_ifs with h
  · exact h
  · rfl

theorem flushParagraph_of_nil {s : MarkdownState} (h : s.buffer = []) : flushParagraph s = s :=
  if_pos h

/-- **The loop of the parser is the loop on the classified lines.** -/
theorem foldl_markdownLine (lines : List Text) (s : MarkdownState) :
    lines.foldl markdownLine s = (classify s.fenceLines.isSome lines).foldl scanLine s := by
  induction lines generalizing s with
  | nil => rfl
  | cons line lines ih =>
    rw [List.foldl_cons, ih, classify]
    unfold markdownLine
    by_cases hfence : fence.isPrefixOf (strip line) = true
    · cases hlines : s.fenceLines with
      | none => simp [scanLine, hfence, hlines]
      | some inside => simp [scanLine, hfence, hlines]
    · cases hlines : s.fenceLines with
      | some inside => simp [scanLine, hfence, hlines]
      | none =>
        cases hheading : atxHeading line with
        | some r => simp [scanLine, hfence, hlines, headingBlock]
        | none =>
          by_cases hblank : strip line = []
          · have hne : fence ≠ [] := List.cons_ne_nil _ _
            simp [scanLine, hlines, hblank, hne]
          · simp [scanLine, hfence, hlines, hblank]

/-- What the parser passes on, from a place in the loop. -/
def finished (s : MarkdownState) (lines : List Line) : List Block :=
  (flushParagraph (closeFence (lines.foldl scanLine s))).blocks

/-- Other lines fill the buffer. -/
theorem foldl_other (run : List Text) (s : MarkdownState) :
    (run.map Line.other).foldl scanLine s = { s with buffer := s.buffer ++ run } := by
  induction run generalizing s with
  | nil => simp
  | cons line run ih =>
    rw [List.map_cons, List.foldl_cons, ih]
    simp [scanLine]

/-- Lines in a fence are kept with it. -/
theorem foldl_inside (inside : List Text) (s : MarkdownState) :
    (inside.map Line.inside).foldl scanLine s
      = { s with fenceLines := s.fenceLines.map fun lines => lines ++ inside } := by
  induction inside generalizing s with
  | nil => cases h : s.fenceLines <;> simp [← h]
  | cons line inside ih =>
    rw [List.map_cons, List.foldl_cons, ih]
    cases h : s.fenceLines <;> simp [scanLine, h]

/-- A buffer is passed on at once, or with the next line that is not part of the run. -/
theorem finished_flush {lines : List Line} {blocks : List Block} (h : Reads lines blocks)
    (hmaximal : ∀ text, lines.head? ≠ some (.other text)) {s : MarkdownState}
    (hs : s.fenceLines = none) : finished s lines = finished (flushParagraph s) lines := by
  have hflush : flushParagraph (flushParagraph s) = flushParagraph s :=
    flushParagraph_of_nil (flushParagraph_buffer s)
  cases h with
  | nil => simp [finished, closeFence, hs, hflush]
  | blank => simp [finished, scanLine, hflush]
  | heading => simp [finished, scanLine, hflush]
  | paragraph nonempty =>
    obtain ⟨line, run, rfl⟩ := List.exists_cons_of_ne_nil nonempty
    exact absurd rfl (hmaximal line)
  | closed => simp [finished, scanLine, hs, hflush]
  | unclosed => simp [finished, scanLine, hs, hflush]

/-- The lines that are part of a paragraph can be. -/
def OthersOk (lines : List Line) : Prop := ∀ text, .other text ∈ lines → IsOther text

/-- **The groups are what the loop passes on.** -/
theorem Reads.finished {lines : List Line} {blocks : List Block} (h : Reads lines blocks)
    (hothers : OthersOk lines) {s : MarkdownState} (hbuffer : s.buffer = [])
    (hfence : s.fenceLines = none) : finished s lines = s.blocks ++ blocks := by
  induction h generalizing s with
  | nil => simp [Parsing.finished, closeFence, hfence, flushParagraph_of_nil hbuffer]
  | @blank lines _ _ ih =>
    have hstep : Parsing.finished s (.blank :: lines) = Parsing.finished s lines := by
      simp [Parsing.finished, scanLine, flushParagraph_of_nil hbuffer]
    rw [hstep]
    exact ih (fun text htext => hothers text (List.mem_cons_of_mem _ htext)) hbuffer hfence
  | @heading level text lines blocks _ ih =>
    have hstep : Parsing.finished s (.heading level text :: lines)
        = Parsing.finished { s with blocks := s.blocks ++ [headingBlock level text] } lines := by
      simp [Parsing.finished, scanLine, flushParagraph_of_nil hbuffer]
    have hmore := @ih (fun t ht => hothers t (List.mem_cons_of_mem _ ht))
      { s with blocks := s.blocks ++ [headingBlock level text] } hbuffer hfence
    rw [hstep, hmore, List.append_assoc, List.singleton_append]
  | @paragraph run lines blocks nonempty maximal more ih =>
    have hrun : ∀ line ∈ run, IsOther line := fun line hline =>
      hothers line (List.mem_append_left _ (List.mem_map_of_mem hline))
    have hstep : Parsing.finished s (run.map .other ++ lines)
        = Parsing.finished { s with buffer := run } lines := by
      rw [Parsing.finished, List.foldl_append, foldl_other, hbuffer, List.nil_append]
      rfl
    have hflush : flushParagraph { s with buffer := run }
        = { s with blocks := s.blocks ++ [Parsing.paragraph (joinLines run)], buffer := [] } := by
      rw [flushParagraph, if_neg nonempty, paragraphBlocks_run nonempty hrun]
    have hpass := @finished_flush _ _ more maximal { s with buffer := run } hfence
    have hmore := @ih (fun t ht => hothers t (List.mem_append_right _ ht))
      { s with blocks := s.blocks ++ [Parsing.paragraph (joinLines run)], buffer := [] } rfl hfence
    rw [hstep, hpass, hflush, hmore, List.append_assoc, List.singleton_append]
  | @closed inside lines blocks _ ih =>
    have hstep : Parsing.finished s (.fence :: inside.map .inside ++ .fence :: lines)
        = Parsing.finished { s with blocks := s.blocks ++ [codeBlock inside] } lines := by
      rw [Parsing.finished, List.cons_append, List.foldl_cons, List.foldl_append, foldl_inside,
        List.foldl_cons]
      simp [Parsing.finished, scanLine, hfence, flushParagraph_of_nil hbuffer]
    have hmore := @ih (fun t ht => hothers t (List.mem_append_right _ (List.mem_cons_of_mem _ ht)))
      { s with blocks := s.blocks ++ [codeBlock inside] } hbuffer hfence
    rw [hstep, hmore, List.append_assoc, List.singleton_append]
  | @unclosed inside =>
    rw [Parsing.finished, List.foldl_cons, foldl_inside]
    simp [scanLine, hfence, closeFence, flushParagraph, hbuffer]

/-! ## 5. Every text -/

/-- A line in an open fence ends it or is kept with it. -/
theorem classify_true_cons (line : Text) (lines : List Text) :
    classify true (line :: lines) = .fence :: classify false lines ∨
      classify true (line :: lines) = .inside line :: classify true lines := by
  rw [classify]
  by_cases hfence : fence.isPrefixOf (strip line) = true
  · exact .inl (if_pos hfence)
  · exact .inr ((if_neg hfence).trans (if_pos rfl))

/-- A line outside a fence opens one, is a heading, is blank, or is another one. -/
theorem classify_false_cons (line : Text) (lines : List Text) :
    classify false (line :: lines) = .fence :: classify true lines ∨
      (∃ level text,
        classify false (line :: lines) = .heading level text :: classify false lines) ∨
      classify false (line :: lines) = .blank :: classify false lines ∨
      (classify false (line :: lines) = .other line :: classify false lines ∧ strip line ≠ []) := by
  rw [classify]
  by_cases hfence : fence.isPrefixOf (strip line) = true
  · exact .inl (if_pos hfence)
  · rw [if_neg hfence, if_neg Bool.false_ne_true]
    cases atxHeading line with
    | some r => exact .inr (.inl ⟨r.1, r.2, rfl⟩)
    | none =>
      by_cases hblank : strip line = []
      · exact .inr (.inr (.inl (if_pos hblank)))
      · exact .inr (.inr (.inr ⟨if_neg hblank, hblank⟩))

/-- What is in an open fence, and what comes behind it. -/
theorem classify_open (lines : List Text) : ∃ inside : List Text,
    classify true lines = inside.map .inside ∨
      ∃ rest, rest.length < lines.length ∧
        classify true lines = inside.map .inside ++ .fence :: classify false rest := by
  induction lines with
  | nil => exact ⟨[], .inl rfl⟩
  | cons line lines ih =>
    rcases classify_true_cons line lines with hline | hline
    · exact ⟨[], .inr ⟨lines, Nat.lt_succ_self _, hline⟩⟩
    · rw [hline]
      obtain ⟨inside, hall | ⟨rest, hshort, hrest⟩⟩ := ih
      · exact ⟨line :: inside, .inl (by rw [hall]; rfl)⟩
      · exact ⟨line :: inside, .inr ⟨rest, Nat.lt_succ_of_lt hshort, by rw [hrest]; rfl⟩⟩

/-- A run of other lines, and what comes behind it. -/
theorem classify_run (lines : List Text) : ∃ run rest : List Text,
    classify false lines = run.map .other ++ classify false rest ∧ rest.length ≤ lines.length ∧
      ∀ text, (classify false rest).head? ≠ some (.other text) := by
  induction lines with
  | nil => exact ⟨[], [], rfl, Nat.le_refl 0, fun _ => nofun⟩
  | cons line lines ih =>
    have hnone (h : ∀ text, (classify false (line :: lines)).head? ≠ some (.other text)) :
        ∃ run rest : List Text,
          classify false (line :: lines) = run.map .other ++ classify false rest ∧
            rest.length ≤ (line :: lines).length ∧
            ∀ text, (classify false rest).head? ≠ some (.other text) :=
      ⟨[], line :: lines, rfl, Nat.le_refl _, h⟩
    rcases classify_false_cons line lines with hline | ⟨level, text, hline⟩ | hline | ⟨hline, -⟩
    · exact hnone fun _ => by rw [hline]; nofun
    · exact hnone fun _ => by rw [hline]; nofun
    · exact hnone fun _ => by rw [hline]; nofun
    · obtain ⟨run, rest, hrun, hshort, hmaximal⟩ := ih
      exact ⟨line :: run, rest, by rw [hline, hrun]; rfl, Nat.le_succ_of_le hshort, hmaximal⟩

/-- **The lines of every text fall into groups.** -/
theorem reads_classify (lines : List Text) : ∃ blocks, Reads (classify false lines) blocks := by
  induction hlength : lines.length using Nat.strong_induction_on generalizing lines with
  | _ n ih =>
    subst hlength
    cases lines with
    | nil => exact ⟨[], .nil⟩
    | cons line lines =>
      rcases classify_false_cons line lines with hline | ⟨level, text, hline⟩ | hline | ⟨hline, -⟩
      · rw [hline]
        obtain ⟨inside, hall | ⟨rest, hshort, hrest⟩⟩ := classify_open lines
        · exact ⟨_, by rw [hall]; exact .unclosed⟩
        · obtain ⟨blocks, hblocks⟩ := ih _ (Nat.lt_succ_of_lt hshort) rest rfl
          exact ⟨_, by rw [hrest]; exact .closed hblocks⟩
      · obtain ⟨blocks, hblocks⟩ := ih _ (Nat.lt_succ_self _) lines rfl
        exact ⟨_, by rw [hline]; exact .heading hblocks⟩
      · obtain ⟨blocks, hblocks⟩ := ih _ (Nat.lt_succ_self _) lines rfl
        exact ⟨_, by rw [hline]; exact .blank hblocks⟩
      · obtain ⟨run, rest, hrun, hshort, hmaximal⟩ := classify_run lines
        obtain ⟨blocks, hblocks⟩ := ih _ (Nat.lt_succ_of_le hshort) rest rfl
        rw [hline, hrun]
        exact ⟨_, .paragraph (List.cons_ne_nil line run) hmaximal hblocks⟩

/-- One line in front of lines that are fine. -/
theorem OthersOk.cons {line : Line} {lines : List Line} (hline : ∀ text, line = .other text →
    IsOther text) (h : OthersOk lines) : OthersOk (line :: lines) := by
  intro text htext
  rcases List.mem_cons.mp htext with heq | htext
  · exact hline text heq.symm
  · exact h text htext

theorem othersOk_classify {lines : List Text} (h : ∀ line ∈ lines, '\n' ∉ line) (isOpen : Bool) :
    OthersOk (classify isOpen lines) := by
  induction lines generalizing isOpen with
  | nil => exact fun _ htext => absurd htext List.not_mem_nil
  | cons line lines ih =>
    obtain ⟨hclean, hlines⟩ := List.forall_mem_cons.mp h
    cases isOpen with
    | true =>
      rcases classify_true_cons line lines with hline | hline
      · exact hline ▸ (ih hlines false).cons fun _ => nofun
      · exact hline ▸ (ih hlines true).cons fun _ => nofun
    | false =>
      rcases classify_false_cons line lines with hline | ⟨level, text, hline⟩ | hline |
        ⟨hline, hblank⟩
      · exact hline ▸ (ih hlines true).cons fun _ => nofun
      · exact hline ▸ (ih hlines false).cons fun _ => nofun
      · exact hline ▸ (ih hlines false).cons fun _ => nofun
      · exact hline ▸ (ih hlines false).cons fun text htext =>
          Line.other.inj htext ▸ ⟨hclean, hblank⟩

/-- The lines of a text have the groups that the loop finds, and no others. -/
theorem reads_iff (text : Text) (blocks : List Block) :
    Reads (classify false (text.splitOn '\n')) blocks ↔ blocks = markdownBlocks text := by
  have hothers : OthersOk (classify false (text.splitOn '\n')) :=
    othersOk_classify (fun line hline hmem => by
      rw [List.splitOn_eq_splitOnP] at hline
      simpa using forall_mem_splitOnP (· == '\n') text line hline '\n' hmem) false
  have hloop : finished {} (classify false (text.splitOn '\n')) = markdownBlocks text := by
    rw [finished, markdownBlocks, foldl_markdownLine]
    rfl
  have hread {blocks : List Block} (h : Reads (classify false (text.splitOn '\n')) blocks) :
      blocks = markdownBlocks text :=
    (h.finished hothers (s := {}) rfl rfl).symm.trans hloop
  refine ⟨hread, fun h => ?_⟩
  obtain ⟨blocks', hblocks⟩ := reads_classify (text.splitOn '\n')
  rw [h, ← hread hblocks]
  exact hblocks

/-- **Markdown parsing keeps every line that is not blank.**  The blocks that are passed on are the
groups of the lines, and a heading has the level and the text that its line has. -/
theorem markdown_scan (cp950 : Bytes → Option Text) (data : Bytes) :
    (MarkdownParser.parse cp950 data = do
      let text ← decodeText cp950 data
      finalizeDocument (markdownBlocks (replaceNewlines text)) { sourceMime := "text/markdown" }) ∧
    (∀ text blocks, Reads (classify false ((replaceNewlines text).splitOn '\n')) blocks ↔
      blocks = markdownBlocks (replaceNewlines text)) ∧
    ∀ line level text, atxHeading line = some (level, text) ↔ IsHeading line level text :=
  ⟨rfl, fun text blocks => reads_iff (replaceNewlines text) blocks, atxHeading_iff⟩

end AtlasKnowledge.Parsing
