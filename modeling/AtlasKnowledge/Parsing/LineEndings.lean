/-
# The line endings of a text file

`MarkdownParser` replaces CR LF and CR before it looks at lines; `PlainTextParser` splits the
text into paragraphs first, and only `normalize_text` replaces them, within a part.  So a blank
line separates paragraphs of plain text only when it is written with LF.

* `markdown_same`: Markdown does not depend on the convention;
* `line_endings`: plain text does exactly when some blank line has text on both sides;
* `not_line_endings`: two short paragraphs.
-/
import AtlasKnowledge.Parsing.Text

namespace AtlasKnowledge.Parsing

open Scan Str

/-! ## 1. The property and the condition -/

/-- The text with CR LF for LF. -/
def toCrlf (text : Text) : Text := replace ['\n'] ['\r', '\n'] text

/-- The text with CR for LF. -/
def toCr (text : Text) : Text := replace ['\n'] ['\r'] text

/-- What a reader sees of a document: types, levels and texts of its blocks, and its warnings. -/
def seen (doc : NormalizedDocument) :
    List (BlockType × Option Int × Text) × Option (List Warning) :=
  (doc.blocks.map fun b => (b.type, b.level, b.text), doc.info.warnings)

/-- The parser sees the same in the three files. -/
def SameEndings (parse : Bytes → Except ParseError NormalizedDocument) (text : Text) : Prop :=
  (parse (Utf8.encode (toCrlf text))).map seen = (parse (Utf8.encode text)).map seen ∧
    (parse (Utf8.encode (toCr text))).map seen = (parse (Utf8.encode text)).map seen

/-- Neither parser depends on the convention. -/
def LineEndingsAgree (cp950 : Bytes → Option Text) (text : Text) : Prop :=
  SameEndings (PlainTextParser.parse cp950) text ∧ SameEndings (MarkdownParser.parse cp950) text

/-- A character that normalisation neither removes nor strips. -/
def isText (c : Char) : Bool := !isSpace c && c ≠ '\u200b'

def hasText (s : Text) : Bool := s.any isText

/-- A blank line, written with LF, has text before it and text behind it. -/
def BlankLineBetween (text : Text) : Prop :=
  ∃ a ws b : Text, text = a ++ ('\n' :: ws ++ '\n' :: b) ∧ (∀ c ∈ ws, isBlank c = true) ∧
    hasText a = true ∧ hasText b = true

/-! ## 2. The three files -/

theorem toCrlf_cons_lf (t : Text) : toCrlf ('\n' :: t) = '\r' :: '\n' :: toCrlf t := by
  simp only [toCrlf, replace_singleton, List.flatMap_cons, if_true]
  rfl

theorem toCrlf_cons {c : Char} (h : c ≠ '\n') (t : Text) : toCrlf (c :: t) = c :: toCrlf t := by
  simp only [toCrlf, replace_singleton, List.flatMap_cons, if_neg h]
  rfl

theorem toCr_eq_map (t : Text) : toCr t = t.map fun c => if c = '\n' then '\r' else c := by
  rw [toCr, replace_singleton, List.map_eq_flatMap]
  congr 1
  funext c
  split <;> rfl

theorem lf_not_mem_toCr (t : Text) : '\n' ∉ toCr t := by
  rw [toCr_eq_map, List.mem_map]
  rintro ⟨c, -, hc⟩
  split at hc
  · exact absurd hc (by decide)
  · rename_i hne
    exact hne hc

/-- A file with LF is not changed. -/
theorem replaceNewlines_lf {t : Text} (h : '\r' ∉ t) : replaceNewlines t = t := by
  have hcrlf : replace ['\r', '\n'] ['\n'] t = t := replace_of_not_mem _ List.mem_cons_self h
  rw [replaceNewlines, hcrlf]
  exact replace_of_not_mem _ List.mem_cons_self h

theorem replace_toCrlf {t : Text} (h : '\r' ∉ t) :
    replace ['\r', '\n'] ['\n'] (toCrlf t) = t := by
  induction t with
  | nil => rfl
  | cons c t ih =>
    have htail : '\r' ∉ t := fun hmem => h (List.mem_cons_of_mem c hmem)
    by_cases hc : c = '\n'
    · subst hc
      rw [toCrlf_cons_lf]
      have hhit : sub (literal ['\r', '\n']) ['\n'] ('\r' :: '\n' :: toCrlf t)
          = '\n' :: sub (literal ['\r', '\n']) ['\n'] (toCrlf t) :=
        sub_append_of_hit (List.cons_ne_nil '\r' ['\n'])
          (literal_hit ['\r', '\n'] (toCrlf t))
      exact hhit.trans (congrArg (List.cons '\n') (ih htail))
    · have hcr : '\r' ≠ c := fun heq => h (heq ▸ List.mem_cons_self)
      rw [toCrlf_cons hc]
      have hmiss : literal ['\r', '\n'] (c :: toCrlf t) = 0 := by simp [literal, hcr]
      exact (sub_cons_of_zero hmiss).trans (congrArg (List.cons c) (ih htail))

/-- A file with CR LF is read as the file with LF. -/
theorem replaceNewlines_toCrlf {t : Text} (h : '\r' ∉ t) : replaceNewlines (toCrlf t) = t := by
  rw [replaceNewlines, replace_toCrlf h]
  exact replace_of_not_mem _ List.mem_cons_self h

/-- A file with CR is read as the file with LF. -/
theorem replaceNewlines_toCr {t : Text} (h : '\r' ∉ t) : replaceNewlines (toCr t) = t := by
  have hcrlf : replace ['\r', '\n'] ['\n'] (toCr t) = toCr t :=
    replace_of_not_mem _ (List.mem_cons_of_mem _ List.mem_cons_self) (lf_not_mem_toCr t)
  rw [replaceNewlines, hcrlf, replace_singleton, toCr_eq_map, List.flatMap_map]
  induction t with
  | nil => rfl
  | cons c t ih =>
    have htail : '\r' ∉ t := fun hmem => h (List.mem_cons_of_mem c hmem)
    have hcr : c ≠ '\r' := fun heq => h (heq ▸ List.mem_cons_self)
    rw [List.flatMap_cons, ih htail (replace_of_not_mem _
      (List.mem_cons_of_mem _ List.mem_cons_self) (lf_not_mem_toCr t))]
    by_cases hc : c = '\n'
    · simp [hc]
    · simp [hc, hcr]

/-- The byte order mark is no line ending. -/
theorem dropBom_toCrlf (t : Text) : dropBom (toCrlf t) = toCrlf (dropBom t) := by
  cases t with
  | nil => rfl
  | cons c t =>
    by_cases hc : c = '\n'
    · subst hc
      rw [toCrlf_cons_lf]
      exact (toCrlf_cons_lf t).symm
    · rw [toCrlf_cons hc]
      by_cases hbom : c = '\ufeff'
      · subst hbom
        rfl
      · have hkeep : ∀ u : Text, dropBom (c :: u) = c :: u := by
          intro u
          unfold dropBom
          split
          · rename_i heq
            exact absurd (List.cons.inj heq).1 hbom
          · rfl
        rw [hkeep, hkeep, toCrlf_cons hc]

theorem dropBom_toCr (t : Text) : dropBom (toCr t) = toCr (dropBom t) := by
  simp only [toCr_eq_map]
  cases t with
  | nil => rfl
  | cons c t =>
    by_cases hbom : c = '\ufeff'
    · subst hbom
      rfl
    · have hkeep : ∀ (d : Char) (u : Text), d ≠ '\ufeff' → dropBom (d :: u) = d :: u := by
        intro d u hd
        unfold dropBom
        split
        · rename_i heq
          exact absurd (List.cons.inj heq).1 hd
        · rfl
      have hmapped : (if c = '\n' then '\r' else c) ≠ '\ufeff' := by
        split
        · decide
        · exact hbom
      rw [List.map_cons, hkeep _ _ hmapped, hkeep _ _ hbom, List.map_cons]

theorem cr_not_mem_dropBom {t : Text} (h : '\r' ∉ t) : '\r' ∉ dropBom t := by
  unfold dropBom
  split
  · exact fun hmem => h (List.mem_cons_of_mem _ hmem)
  · exact h

/-! ## 3. Markdown -/

theorem MarkdownParser.parse_utf8 (cp950 : Bytes → Option Text) (text : Text) :
    MarkdownParser.parse cp950 (Utf8.encode text)
      = finalizeDocument (markdownBlocks (replaceNewlines (dropBom text)))
          { sourceMime := "text/markdown" } := by
  rw [MarkdownParser.parse, decodeText_utf8]
  rfl

/-- **Markdown does not depend on the line endings.** -/
theorem markdown_same (cp950 : Bytes → Option Text) {text : Text} (h : '\r' ∉ text) :
    SameEndings (MarkdownParser.parse cp950) text := by
  have hbom := cr_not_mem_dropBom h
  simp only [SameEndings, MarkdownParser.parse_utf8, dropBom_toCrlf, dropBom_toCr,
    replaceNewlines_toCrlf hbom, replaceNewlines_toCr hbom, replaceNewlines_lf hbom, and_self]

/-! ## 4. Where plain text is split -/

/-- A separator is a blank line. -/
theorem separator_blankLine {sep rest : Text} (hne : sep ≠ [])
    (h : paragraphSplit (sep ++ rest) = sep.length) :
    ∃ ws, sep = '\n' :: ws ++ ['\n'] ∧ (∀ c ∈ ws, isBlank c = true) := by
  have hpos : paragraphSplit (sep ++ rest) ≠ 0 := by
    rw [h]
    exact fun hzero => hne (List.length_eq_zero_iff.mp hzero)
  obtain ⟨ws, rest', heq, hws⟩ := paragraphSplit_hit hpos
  rw [heq, paragraphSplit_blankLine hws] at h
  have heq' : sep ++ rest = ('\n' :: ws ++ ['\n']) ++ rest' := by simpa using heq
  have hlen : sep.length = ('\n' :: ws ++ ['\n']).length := by simpa using h.symm
  exact ⟨ws, (List.append_inj heq' hlen).1, hws⟩

/-- A file with CR LF is not split: no LF follows another one across blanks. -/
theorem clean_toCrlf (t : Text) : Clean paragraphSplit (toCrlf t) [] := by
  have hdrop : ∀ t : Text, (toCrlf t).dropWhile isBlank = toCrlf (t.dropWhile isBlank) := by
    intro t
    induction t with
    | nil => rfl
    | cons c t ih =>
      by_cases hc : c = '\n'
      · subst hc
        rw [toCrlf_cons_lf, List.dropWhile_cons_of_neg (by decide),
          List.dropWhile_cons_of_neg (by decide), toCrlf_cons_lf]
      · rw [toCrlf_cons hc]
        cases hblank : isBlank c with
        | true =>
          rw [List.dropWhile_cons_of_pos hblank, List.dropWhile_cons_of_pos hblank, ih]
        | false =>
          rw [List.dropWhile_cons_of_neg (by simp [hblank]),
            List.dropWhile_cons_of_neg (by simp [hblank]), toCrlf_cons hc]
  have hhead : ∀ t u : Text, toCrlf t ≠ '\n' :: u := by
    intro t u heq
    cases t with
    | nil => exact nomatch heq
    | cons c t =>
      by_cases hc : c = '\n'
      · subst hc
        rw [toCrlf_cons_lf] at heq
        exact absurd (List.cons.inj heq).1 (by decide)
      · rw [toCrlf_cons hc] at heq
        exact hc (List.cons.inj heq).1
  induction t with
  | nil => exact Clean.nil []
  | cons c t ih =>
    by_cases hc : c = '\n'
    · subst hc
      rw [toCrlf_cons_lf]
      refine Clean.cons (Clean.cons ih ?_) rfl
      simp only [List.append_nil, paragraphSplit, hdrop]
      split
      · rename_i u heq
        exact absurd heq (hhead _ u)
      · rfl
    · rw [toCrlf_cons hc]
      refine Clean.cons ih ?_
      simp only [paragraphSplit, List.cons_append]
      split
      · rename_i heq
        exact absurd (List.cons.inj heq).1 hc
      · rfl

/-- Nor is a file with CR. -/
theorem clean_toCr (t : Text) : Clean paragraphSplit (toCr t) [] := by
  intro a c hac _
  by_contra hne
  obtain ⟨ws, rest, heq, -⟩ := paragraphSplit_hit hne
  have hmem : '\n' ∈ c := by
    rw [List.append_nil] at heq
    rw [heq]
    exact List.mem_cons_self
  exact lf_not_mem_toCr t (hac ▸ List.mem_append_right a hmem)

/-! ## 5. Text and blanks -/

theorem hasText_append (a b : Text) : hasText (a ++ b) = (hasText a || hasText b) :=
  List.any_append

/-- A blank line has no text. -/
theorem hasText_blankLine {ws : Text} (hws : ∀ c ∈ ws, isBlank c = true) :
    hasText ('\n' :: ws ++ ['\n']) = false := by
  have hblank : hasText ws = false := by
    rw [hasText, List.any_eq_false]
    intro c hc
    have hc' : c = ' ' ∨ c = '\t' := by simpa [isBlank] using hws c hc
    rcases hc' with rfl | rfl <;> decide
  rw [hasText_append, show '\n' :: ws = ['\n'] ++ ws from rfl, hasText_append, hblank]
  decide

theorem hasText_separator {sep rest : Text} (hne : sep ≠ [])
    (h : paragraphSplit (sep ++ rest) = sep.length) : hasText sep = false := by
  obtain ⟨ws, rfl, hws⟩ := separator_blankLine hne h
  exact hasText_blankLine hws

/-- `_SPACE_EQUIVALENTS`, character by character. -/
def spaceEquivalent (c : Char) : Text :=
  if c = '\u3000' then [' '] else if c = '\u00a0' then [' '] else if c = '\u200b' then [] else [c]

theorem normalizeText_eq {s : Text} (h : '\r' ∉ s) :
    normalizeText s = strip (s.flatMap spaceEquivalent) := by
  simp only [normalizeText, replaceNewlines_lf h, spaceEquivalents, List.foldl_cons,
    List.foldl_nil, replace_singleton, List.flatMap_assoc]
  congr 2
  funext c
  unfold spaceEquivalent
  split
  · rfl
  · split
    · rename_i hnbsp
      simp [hnbsp]
    · rename_i hnbsp
      simp [hnbsp]

/-- Text without text is stripped to nothing. -/
theorem blank_spaceEquivalent {s : Text} (h : hasText s = false) :
    ∀ c ∈ s.flatMap spaceEquivalent, isSpace c = true := by
  intro c hc
  obtain ⟨d, hd, hcd⟩ := List.mem_flatMap.mp hc
  have hblank : isText d = false := by simpa using (List.any_eq_false.mp h) d hd
  unfold spaceEquivalent at hcd
  split at hcd
  · obtain rfl := List.mem_singleton.mp hcd
    decide
  · split at hcd
    · obtain rfl := List.mem_singleton.mp hcd
      decide
    · split at hcd
      · exact nomatch hcd
      · rename_i hzero
        obtain rfl := List.mem_singleton.mp hcd
        simpa [isText, hzero] using hblank

theorem normalizeText_eq_nil {s : Text} (hcr : '\r' ∉ s) :
    normalizeText s = [] ↔ hasText s = false := by
  rw [normalizeText_eq hcr, strip_eq_nil]
  refine ⟨fun h => ?_, blank_spaceEquivalent⟩
  rw [hasText, List.any_eq_false]
  intro c hc htext
  have hparts : isSpace c = false ∧ c ≠ '\u200b' := by simpa [isText] using htext
  have hkept : c ∈ spaceEquivalent c := by
    unfold spaceEquivalent
    split
    · rename_i h₁
      exact absurd hparts.1 (by rw [h₁]; decide)
    · split
      · rename_i h₂
        exact absurd hparts.1 (by rw [h₂]; decide)
      · rw [if_neg hparts.2]
        exact List.mem_singleton_self c
  have hspace := h c (List.mem_flatMap.mpr ⟨c, hc, hkept⟩)
  rw [hparts.1] at hspace
  exact nomatch hspace

/-- Blanks in front do not count. -/
theorem normalizeText_append_left {u s : Text} (hcr : '\r' ∉ u ++ s) (hu : hasText u = false) :
    normalizeText (u ++ s) = normalizeText s := by
  have hs : '\r' ∉ s := fun hmem => hcr (List.mem_append_right u hmem)
  rw [normalizeText_eq hcr, normalizeText_eq hs, List.flatMap_append]
  exact strip_append_left _ (blank_spaceEquivalent hu)

/-- Nor do blanks behind. -/
theorem normalizeText_append_right {s v : Text} (hcr : '\r' ∉ s ++ v) (hv : hasText v = false) :
    normalizeText (s ++ v) = normalizeText s := by
  have hs : '\r' ∉ s := fun hmem => hcr (List.mem_append_left v hmem)
  rw [normalizeText_eq hcr, normalizeText_eq hs, List.flatMap_append]
  exact strip_append_right _ (blank_spaceEquivalent hv)

/-! ## 6. The parts -/

variable {text : Text} {parts : List Text}

/-- A text has text in one of its parts. -/
theorem hasText_parts (h : Splits paragraphSplit text parts) :
    hasText text = parts.any hasText := by
  induction h with
  | last _ => simp
  | cons _ nonempty hit _ ih =>
    rw [hasText_append, hasText_append, hasText_separator nonempty hit, ih, Bool.or_false,
      List.any_cons]

theorem any_of_countP {parts : List Text} (h : 1 ≤ parts.countP hasText) :
    parts.any hasText = true := by
  obtain ⟨part, hpart, htext⟩ := List.countP_pos_iff.mp h
  exact List.any_eq_true.mpr ⟨part, hpart, htext⟩

theorem countP_of_any {parts : List Text} (h : parts.any hasText = true) :
    1 ≤ parts.countP hasText := by
  obtain ⟨part, hpart, htext⟩ := List.any_eq_true.mp h
  exact List.countP_pos_iff.mpr ⟨part, hpart, htext⟩

/-- Two parts with text are on the two sides of some blank line. -/
theorem blankLineBetween_of_parts (h : Splits paragraphSplit text parts)
    (htwo : 2 ≤ parts.countP hasText) : BlankLineBetween text := by
  induction h with
  | @last p _ =>
    have hle : [p].countP hasText ≤ 1 := List.countP_le_length
    exact absurd (le_trans htwo hle) (by decide)
  | @cons p sep rest parts _ nonempty hit tail ih =>
    obtain ⟨ws, rfl, hws⟩ := separator_blankLine nonempty hit
    by_cases hp : hasText p = true
    · rw [List.countP_cons_of_pos hp] at htwo
      have hrest : hasText rest = true := by
        rw [hasText_parts tail]
        exact any_of_countP (by omega)
      exact ⟨p, ws, rest, by simp, hws, hp, hrest⟩
    · rw [List.countP_cons_of_neg hp] at htwo
      obtain ⟨a, ws', b, rfl, hws', ha, hb⟩ := ih htwo
      refine ⟨p ++ ('\n' :: ws ++ ['\n']) ++ a, ws', b, by simp, hws', ?_, hb⟩
      rw [hasText_append, ha, Bool.or_true]

/-- A blank line with text on both sides leaves text in two parts: it does not lie within a part,
which is clean, and a side that has text reaches beyond the separators. -/
theorem parts_of_blankLineBetween (h : Splits paragraphSplit text parts)
    (hbetween : BlankLineBetween text) : 2 ≤ parts.countP hasText := by
  induction h with
  | last clean =>
    obtain ⟨a, ws, b, rfl, hws, -, -⟩ := hbetween
    have hzero := clean a ('\n' :: ws ++ '\n' :: b) rfl (List.cons_ne_nil _ _)
    rw [List.append_nil, paragraphSplit_blankLine hws] at hzero
    exact nomatch hzero
  | @cons p sep rest parts clean nonempty hit tail ih =>
    have hsep : hasText sep = false := hasText_separator nonempty hit
    have hparts : hasText rest = parts.any hasText := hasText_parts tail
    obtain ⟨a, ws, b, heq, hws, ha, hb⟩ := hbetween
    by_cases hp : hasText p = true
    · rw [List.countP_cons_of_pos hp]
      cases hr : hasText rest with
      | true =>
        have hone := countP_of_any (hparts.symm.trans hr)
        omega
      | false =>
        -- the text behind the blank line is in `p`, and so is the blank line
        exfalso
        have hnone : ∀ u : Text, sep ++ rest = u ++ b → False := by
          intro u hu
          have htext : hasText (u ++ b) = false := by
            rw [← hu, hasText_append, hsep, hr, Bool.or_false]
          rw [hasText_append, hb, Bool.or_true] at htext
          exact nomatch htext
        rw [List.append_assoc] at heq
        rcases List.append_eq_append_iff.mp heq with ⟨u, -, hu⟩ | ⟨u, hpu, hu⟩
        · exact hnone (u ++ '\n' :: ws ++ ['\n']) (by rw [hu]; simp)
        · have hu' : ('\n' :: ws ++ ['\n']) ++ b = u ++ (sep ++ rest) := by simpa using hu
          rcases List.append_eq_append_iff.mp hu' with ⟨v, hv, hbv⟩ | ⟨v, -, hbv⟩
          · have hzero := clean a u hpu (by rw [hv]; exact List.cons_ne_nil _ _)
            have hmatch : u ++ (sep ++ rest) = '\n' :: ws ++ '\n' :: (v ++ (sep ++ rest)) := by
              rw [hv]
              simp
            rw [hmatch, paragraphSplit_blankLine hws] at hzero
            exact nomatch hzero
          · exact hnone v hbv
    · rw [List.countP_cons_of_neg hp]
      -- the text before the blank line reaches beyond `p` and its separator
      have hnone : ∀ u : Text, p ++ sep = a ++ u → False := by
        intro u hu
        have htext : hasText (a ++ u) = false := by
          rw [← hu, hasText_append, hsep, Bool.or_false]
          simpa using hp
        rw [hasText_append, ha, Bool.true_or] at htext
        exact nomatch htext
      rcases List.append_eq_append_iff.mp heq with ⟨u, hau, hu⟩ | ⟨u, hpu, -⟩
      · refine ih ⟨u, ws, b, hu, hws, ?_, hb⟩
        rw [hau, hasText_append, hasText_append, hsep] at ha
        simpa [hp] using ha
      · exact (hnone u hpu).elim

theorem blankLineBetween_iff (text : Text) :
    BlankLineBetween text ↔ 2 ≤ (split paragraphSplit text).countP hasText := by
  have hsplits := split_splits paragraphSplit_le text
  exact ⟨parts_of_blankLineBetween hsplits, blankLineBetween_of_parts hsplits⟩

instance (text : Text) : Decidable (BlankLineBetween text) :=
  decidable_of_iff _ (blankLineBetween_iff text).symm

/-! ## 7. Their contents -/

/-- The normalised paragraphs of the parts. -/
def contents (parts : List Text) : List Block :=
  parts.filterMap fun part => normalizeBlock (paragraph part)

theorem normalizeBlock_paragraph (part : Text) :
    normalizeBlock (paragraph part) =
      if normalizeText part = [] then none else some (paragraph (normalizeText part)) := rfl

/-- Two parts that are normalised to one text have the same content. -/
theorem contents_singleton {a b : Text} (h : normalizeText a = normalizeText b) :
    contents [a] = contents [b] := by
  simp only [contents, List.filterMap_cons, List.filterMap_nil, normalizeBlock_paragraph, h]

theorem contents_cons_some {part : Text} {block : Block}
    (h : normalizeBlock (paragraph part) = some block) (parts : List Text) :
    contents (part :: parts) = block :: contents parts := List.filterMap_cons_some h

theorem contents_cons_none {part : Text} (h : normalizeBlock (paragraph part) = none)
    (parts : List Text) : contents (part :: parts) = contents parts := List.filterMap_cons_none h

theorem contents_length {parts : List Text} (hcr : ∀ part ∈ parts, '\r' ∉ part) :
    (contents parts).length = parts.countP hasText := by
  induction parts with
  | nil => rfl
  | cons part parts ih =>
    have hhead := normalizeText_eq_nil (hcr part List.mem_cons_self)
    have htail := ih fun q hq => hcr q (List.mem_cons_of_mem part hq)
    cases htext : hasText part with
    | true =>
      have hsome : normalizeBlock (paragraph part) = some (paragraph (normalizeText part)) := by
        rw [normalizeBlock_paragraph, if_neg (by simp [hhead, htext])]
      rw [List.countP_cons_of_pos htext, ← htail, contents_cons_some hsome, List.length_cons]
    | false =>
      have hnone : normalizeBlock (paragraph part) = none := by
        rw [normalizeBlock_paragraph, if_pos (hhead.mpr htext)]
      rw [List.countP_cons_of_neg (by simp [htext]), ← htail, contents_cons_none hnone]

theorem cr_not_mem_parts (h : Splits paragraphSplit text parts) (hcr : '\r' ∉ text) :
    ∀ part ∈ parts, '\r' ∉ part := by
  induction h with
  | last _ =>
    intro part hpart
    rw [List.mem_singleton.mp hpart]
    exact hcr
  | cons _ _ _ _ ih =>
    intro part hpart
    rcases List.mem_cons.mp hpart with rfl | htail
    · exact fun hmem => hcr (List.mem_append_left _ (List.mem_append_left _ hmem))
    · exact ih (fun hmem => hcr (List.mem_append_right _ hmem)) part htail

/-- With text in one part at most, the parts have the content of the whole. -/
theorem contents_parts (h : Splits paragraphSplit text parts) (hcr : '\r' ∉ text)
    (hone : parts.countP hasText ≤ 1) : contents parts = contents [text] := by
  induction h with
  | last _ => rfl
  | @cons p sep rest parts _ nonempty hit tail ih =>
    have hsep : hasText sep = false := hasText_separator nonempty hit
    have hrest : '\r' ∉ rest := fun hmem => hcr (List.mem_append_right _ hmem)
    have hcrp : '\r' ∉ p :=
      fun hmem => hcr (List.mem_append_left _ (List.mem_append_left _ hmem))
    by_cases hp : hasText p = true
    · -- the rest is blank
      rw [List.countP_cons_of_pos hp] at hone
      have hzero : (contents parts).length = 0 := by
        rw [contents_length (cr_not_mem_parts tail hrest)]
        omega
      have hblank : hasText (sep ++ rest) = false := by
        rw [hasText_append, hsep, Bool.false_or, hasText_parts tail]
        cases hany : parts.any hasText with
        | true =>
          have hpos := countP_of_any hany
          omega
        | false => rfl
      have hnorm : normalizeText (p ++ sep ++ rest) = normalizeText p := by
        rw [List.append_assoc] at hcr ⊢
        exact normalizeText_append_right hcr hblank
      have hnil : contents parts = [] := List.length_eq_zero_iff.mp hzero
      have happend : contents ([p] ++ parts) = contents [p] ++ contents parts :=
        List.filterMap_append
      rw [← List.singleton_append, happend, hnil, List.append_nil]
      exact contents_singleton hnorm.symm
    · -- the head is blank
      rw [List.countP_cons_of_neg hp] at hone
      have hblank : hasText (p ++ sep) = false := by
        rw [hasText_append, hsep, Bool.or_false]
        simpa using hp
      have hnone : normalizeBlock (paragraph p) = none := by
        rw [normalizeBlock_paragraph, if_pos ((normalizeText_eq_nil hcrp).mpr (by simpa using hp))]
      rw [contents_cons_none hnone, ih hrest hone]
      exact contents_singleton (normalizeText_append_left hcr hblank).symm

/-! ## 8. Plain text -/

theorem PlainTextParser.parse_utf8 (cp950 : Bytes → Option Text) (text : Text) :
    PlainTextParser.parse cp950 (Utf8.encode text)
      = finalizeDocument (paragraphBlocks (dropBom text)) { sourceMime := "text/plain" } := by
  rw [PlainTextParser.parse, decodeText_utf8]
  rfl

theorem filterMap_paragraphs (parts : List Text) :
    (parts.map paragraph).filterMap normalizeBlock = contents parts := List.filterMap_map

/-- The result depends on the contents of the parts. -/
theorem finalize_parts {ps qs : List Text} (info : DocumentMeta) (h : contents ps = contents qs) :
    finalizeDocument (ps.map paragraph) info = finalizeDocument (qs.map paragraph) info := by
  simp only [finalize_eq, filterMap_paragraphs, h]

/-- Parts that come out alike have as many contents. -/
theorem contents_length_of_seen {ps : List Text} {whole : Text} {info : DocumentMeta}
    (h : (finalizeDocument [paragraph whole] info).map seen
      = (finalizeDocument (ps.map paragraph) info).map seen) :
    (contents ps).length = (contents [whole]).length := by
  obtain ⟨doc, hdoc⟩ : ∃ doc, finalizeDocument [paragraph whole] info = .ok doc :=
    finalize_text_ok info rfl
  rw [hdoc] at h
  cases hparts : finalizeDocument (ps.map paragraph) info with
  | error e =>
    rw [hparts] at h
    exact nomatch h
  | ok doc' =>
    rw [hparts] at h
    have hseen : seen doc = seen doc' := Except.ok.inj h
    have hblocks : doc.blocks.length = doc'.blocks.length := by
      have hlength := congrArg List.length (Prod.mk.inj hseen).1
      simpa using hlength
    rw [finalize_length hdoc, finalize_length hparts, filterMap_paragraphs] at hblocks
    exact hblocks.symm

/-- **Plain text depends on the line endings exactly when a blank line has text on both
sides.** -/
theorem plainText_same_iff (cp950 : Bytes → Option Text) {text : Text} (h : '\r' ∉ text) :
    SameEndings (PlainTextParser.parse cp950) text ↔ ¬ BlankLineBetween (dropBom text) := by
  have hcr := cr_not_mem_dropBom h
  have hsplits := split_splits paragraphSplit_le (dropBom text)
  -- the two other files are one part each, with the content of the whole
  have hwhole : ∀ other : Text, Clean paragraphSplit other [] →
      replaceNewlines other = dropBom text →
      finalizeDocument (paragraphBlocks other) { sourceMime := "text/plain" }
        = finalizeDocument [paragraph (dropBom text)] { sourceMime := "text/plain" } := by
    intro other hclean hnewlines
    have hnorm : normalizeText other = normalizeText (dropBom text) := by
      rw [normalizeText, hnewlines, normalizeText, replaceNewlines_lf hcr]
    rw [paragraphBlocks, split_eq_singleton hclean]
    exact finalize_parts _ (contents_singleton hnorm)
  have hcrlf := hwhole _ (clean_toCrlf (dropBom text)) (replaceNewlines_toCrlf hcr)
  have hcronly := hwhole _ (clean_toCr (dropBom text)) (replaceNewlines_toCr hcr)
  simp only [SameEndings, PlainTextParser.parse_utf8, dropBom_toCrlf, dropBom_toCr, hcrlf, hcronly,
    and_self]
  constructor
  · intro hsame hbetween
    have htwo := parts_of_blankLineBetween hsplits hbetween
    have hlength := contents_length_of_seen hsame
    have hone : (contents [dropBom text]).length ≤ 1 := List.length_filterMap_le _ _
    rw [contents_length (cr_not_mem_parts hsplits hcr)] at hlength
    omega
  · intro hno
    have hone : (split paragraphSplit (dropBom text)).countP hasText ≤ 1 := by
      rw [blankLineBetween_iff] at hno
      omega
    rw [paragraphBlocks, finalize_parts _ (contents_parts hsplits hcr hone)]
    rfl

/-! ## 9. The result -/

/-- **The two parsers agree on the three files exactly without such a blank line.** -/
theorem line_endings (cp950 : Bytes → Option Text) (text : Text) (h : '\r' ∉ text) :
    LineEndingsAgree cp950 text ↔ ¬ BlankLineBetween (dropBom text) := by
  rw [LineEndingsAgree, plainText_same_iff cp950 h]
  exact and_iff_left (markdown_same cp950 h)

/-- Two lines of one paragraph, with a blank line behind. -/
def oneParagraph : Text := "a\nb\n\n".toList

theorem line_endings_oneParagraph : LineEndingsAgree (fun _ => none) oneParagraph :=
  (line_endings (fun _ => none) oneParagraph (by decide)).mpr (by decide)

/-- Two paragraphs. -/
def twoParagraphs : Text := "a\n\nb".toList

/-- **Two paragraphs become one** in the file with CR LF. -/
theorem not_line_endings :
    ¬ ∀ (cp950 : Bytes → Option Text) (text : Text), '\r' ∉ text →
      LineEndingsAgree cp950 text := by
  intro h
  have hsame := (h (fun _ => none) twoParagraphs (by decide)).1.1
  rw [PlainTextParser.parse_utf8, PlainTextParser.parse_utf8] at hsame
  have hblocks := congrArg (fun r => r.toOption.map fun doc => doc.1.length) hsame
  exact absurd hblocks (by decide)

end AtlasKnowledge.Parsing
