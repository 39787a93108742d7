/-
# The generated `tsquery`

`build_tsquery` puts each token in double quotes and escapes backslashes and double quotes.  To
`to_tsquery` a double quote is a character like any other: an operand that starts with one goes on
to the next white space or operator, so an operator in a token ends the operand.

`lex` cuts the text up as `to_tsquery` does; what it makes of the lexemes is a parameter, of which
`Grammar` says what the service relies on.

* `tsquery_iff`: exactly when the query is empty or the OR of its tokens;
* `not_wellFormed`: an operator character in a token.
-/
import AtlasKnowledge.Retrieval.HybridSearch

namespace AtlasKnowledge.Retrieval

/-! ## 1. Lexemes -/

/-- The characters that end an operand and stand for themselves. -/
def isOperator (c : Char) : Bool := ['!', '&', '|', '(', ')', ':'].contains c

/-- A lexeme of `to_tsquery`'s input. -/
inductive Lexeme where
  | operand (text : Text)
  | operator (c : Char)
  deriving DecidableEq, Repr

/-- Where the lexer stands: between operands, in one, in a quoted one, or behind a backslash. -/
inductive Mode where
  | between
  | word (operand : Text)
  | escape (operand : Text)
  | quoted (operand : Text)
  | quotedEscape (operand : Text)

/-- The lexemes of a text; `none` is one that ends within quotes or behind a backslash. -/
def lexFrom (space : Char → Bool) : Mode → Text → Option (List Lexeme)
  | .between, [] => some []
  | .between, c :: text =>
    if space c then lexFrom space .between text
    else if isOperator c then (lexFrom space .between text).map (.operator c :: ·)
    else if c = '\'' then lexFrom space (.quoted []) text
    else if c = '\\' then lexFrom space (.escape []) text
    else lexFrom space (.word [c]) text
  | .word operand, [] => some [.operand operand]
  | .word operand, c :: text =>
    if c = '\\' then lexFrom space (.escape operand) text
    else if space c then (lexFrom space .between text).map (.operand operand :: ·)
    else if isOperator c then
      (lexFrom space .between text).map fun rest => .operand operand :: .operator c :: rest
    else lexFrom space (.word (operand ++ [c])) text
  | .escape operand, c :: text => lexFrom space (.word (operand ++ [c])) text
  | .quoted operand, c :: text =>
    if c = '\\' then lexFrom space (.quotedEscape operand) text
    else if c = '\'' then (lexFrom space .between text).map (.operand operand :: ·)
    else lexFrom space (.quoted (operand ++ [c])) text
  | .quotedEscape operand, c :: text => lexFrom space (.quoted (operand ++ [c])) text
  | .escape _, [] | .quoted _, [] | .quotedEscape _, [] => none

/-- The lexer from the start of the text. -/
def lex (space : Char → Bool) (text : Text) : Option (List Lexeme) := lexFrom space .between text

/-! ## 2. Queries -/

/-- A parsed query. -/
inductive Tsquery where
  | operand (text labels : Text)
  | not (q : Tsquery)
  | and (q q' : Tsquery)
  | or (q q' : Tsquery)
  deriving DecidableEq, Repr

/-- The operands, from left to right. -/
def Tsquery.operands : Tsquery → List Text
  | .operand text _ => [text]
  | .not q => q.operands
  | .and q q' => q.operands ++ q'.operands
  | .or q q' => q.operands ++ q'.operands

/-- The operands of a query that is an OR of them. -/
def Tsquery.disjuncts : Tsquery → Option (List Text)
  | .operand text _ => some [text]
  | .or q q' => q.disjuncts.bind fun ts => q'.disjuncts.map (ts ++ ·)
  | _ => none

/-- The text of an operand. -/
def Lexeme.operand? : Lexeme → Option Text
  | .operand text => some text
  | .operator _ => none

/-- Operands with `|` between them. -/
def alternatives (first : Text) (others : List Text) : List Lexeme :=
  .operand first :: others.flatMap fun text => [.operator '|', .operand text]

/-- What the service relies on: what `to_tsquery` takes for white space is white space to Python,
`|` is OR, and an operand stands in the query in its place; what stands behind a `:` may be a
label. -/
structure Grammar (space : Char → Bool) (parse : List Lexeme → Option Tsquery) : Prop where
  blank : space ' ' = true
  isSpace : ∀ c, space c = true → Str.isSpace c = true
  disjunction : ∀ first others, ∃ q, parse (alternatives first others) = some q ∧
    q.disjuncts = some (first :: others)
  operands : ∀ lexemes q, parse lexemes = some q →
    (lexemes.takeWhile (· ≠ .operator ':')).filterMap Lexeme.operand? <+: q.operands

/-- `to_tsquery('simple', ...)`, up to the dictionary. -/
def toTsquery (space : Char → Bool) (parse : List Lexeme → Option Tsquery) (text : Text) :
    Option Tsquery := (lex space text).bind parse

/-! ## 3. The property -/

/-- The distinct tokens of more than one character, in their order. -/
def longTokens (queryTokens : Text) : List Text :=
  ((Str.words queryTokens).filter fun token => 1 < token.length).eraseDups

/-- The operand of a token: its double quotes are part of it. -/
def doubleQuoted (token : Text) : Text := '"' :: token ++ ['"']

/-- The query is empty exactly without a token of more than one character, and otherwise the OR of
one operand for each. -/
structure WellFormed (space : Char → Bool) (parse : List Lexeme → Option Tsquery)
    (queryTokens : Text) : Prop where
  empty : buildTsquery queryTokens = [] ↔ ∀ token ∈ Str.words queryTokens, token.length ≤ 1
  disjunction : buildTsquery queryTokens ≠ [] →
    ∃ q, toTsquery space parse (buildTsquery queryTokens) = some q ∧
      q.disjuncts = some ((longTokens queryTokens).map doubleQuoted)

/-- No operator in the token. -/
def Plain (token : Text) : Prop := ∀ c ∈ token, isOperator c = false

instance : DecidablePred Plain := fun token =>
  decidable_of_iff (token.all fun c => !isOperator c) (by simp [Plain])

variable {space : Char → Bool} {parse : List Lexeme → Option Tsquery} {queryTokens token : Text}

/-! ## 4. One token -/

/-- A character, escaped. -/
def escapeChar (c : Char) : Text := if c = '\\' ∨ c = '"' then ['\\', c] else [c]

theorem escaped_eq (token : Text) : escaped token = '"' :: token.flatMap escapeChar ++ ['"'] := by
  rw [escaped, Scan.replace_singleton, Scan.replace_singleton, List.flatMap_assoc]
  congr 3
  funext c
  by_cases hslash : c = '\\'
  · subst hslash
    rfl
  · by_cases hquote : c = '"'
    · subst hquote
      rfl
    · simp [escapeChar, hslash, hquote]

/-- In an operand a character that is no white space and no operator joins it, escaped as it is. -/
theorem lex_escapeChar {c : Char} (hspace : space c = false) (hoperator : isOperator c = false)
    (operand rest : Text) :
    lexFrom space (.word operand) (escapeChar c ++ rest) =
      lexFrom space (.word (operand ++ [c])) rest := by
  unfold escapeChar
  split_ifs with hescaped
  · simp [lexFrom]
  · obtain ⟨hslash, -⟩ := not_or.mp hescaped
    simp [lexFrom, hslash, hspace, hoperator]

theorem lex_escaped (hspace : ∀ c ∈ token, space c = false) (hplain : Plain token)
    (operand rest : Text) :
    lexFrom space (.word operand) (token.flatMap escapeChar ++ rest) =
      lexFrom space (.word (operand ++ token)) rest := by
  induction token generalizing operand with
  | nil => rw [List.flatMap_nil, List.nil_append, List.append_nil]
  | cons c token ih =>
    obtain ⟨hc, hspace⟩ := List.forall_mem_cons.mp hspace
    obtain ⟨hc', hplain⟩ := List.forall_mem_cons.mp hplain
    rw [List.flatMap_cons, List.append_assoc, lex_escapeChar hc hc', ih hspace hplain,
      List.append_assoc, List.singleton_append]

/-- The double quote opens an operand. -/
theorem lex_quote (G : Grammar space parse) (rest : Text) :
    lexFrom space .between ('"' :: rest) = lexFrom space (.word ['"']) rest := by
  have hspace : space '"' = false := by
    rw [← Bool.not_eq_true]
    exact fun h => absurd (G.isSpace '"' h) (by decide)
  simp [lexFrom, hspace, show isOperator '"' = false from rfl]

/-- **A plain token** is read up to its closing quote. -/
theorem lex_plain (G : Grammar space parse) (hspace : ∀ c ∈ token, space c = false)
    (hplain : Plain token) (rest : Text) :
    lexFrom space .between (escaped token ++ rest) =
      lexFrom space (.word (doubleQuoted token)) rest := by
  have hquote : space '"' = false := by
    rw [← Bool.not_eq_true]
    exact fun h => absurd (G.isSpace '"' h) (by decide)
  have hclose : ∀ operand : Text, lexFrom space (.word operand) ('"' :: rest) =
      lexFrom space (.word (operand ++ ['"'])) rest := by
    intro operand
    simp [lexFrom, hquote, show isOperator '"' = false from rfl]
  rw [escaped_eq, List.cons_append, List.cons_append, lex_quote G, List.append_assoc,
    lex_escaped hspace hplain]
  exact hclose ('"' :: token)

/-- A token that is not plain has a first operator. -/
theorem exists_operator (hplain : ¬ Plain token) :
    ∃ p c s, token = p ++ c :: s ∧ Plain p ∧ isOperator c = true := by
  induction token with
  | nil => exact absurd nofun hplain
  | cons c token ih =>
    cases hc : isOperator c with
    | true => exact ⟨[], c, token, rfl, nofun, hc⟩
    | false =>
      obtain ⟨p, d, s, rfl, hp, hd⟩ := ih fun h => hplain (List.forall_mem_cons.mpr ⟨hc, h⟩)
      exact ⟨c :: p, d, s, rfl, List.forall_mem_cons.mpr ⟨hc, hp⟩, hd⟩

theorem isOperator_ne {c : Char} (h : isOperator c = true) : c ≠ '\\' ∧ c ≠ '"' := by
  constructor <;>
  · rintro rfl
    exact absurd h (by decide)

/-- **Any other token** is read up to its first operator. -/
theorem lex_notPlain (G : Grammar space parse) (hspace : ∀ c ∈ token, space c = false)
    (hplain : ¬ Plain token) (rest : Text) :
    ∃ p c more, p.length < token.length ∧ lexFrom space .between (escaped token ++ rest) =
      (lexFrom space .between more).map fun lexemes =>
        .operand ('"' :: p) :: .operator c :: lexemes := by
  obtain ⟨p, c, s, rfl, hp, hc⟩ := exists_operator hplain
  obtain ⟨hslash, hquote⟩ := isOperator_ne hc
  have hcspace : space c = false := hspace c (List.mem_append_right _ List.mem_cons_self)
  have hpspace : ∀ d ∈ p, space d = false := fun d hd => hspace d (List.mem_append_left _ hd)
  have hescape : escapeChar c = [c] := if_neg (not_or.mpr ⟨hslash, hquote⟩)
  refine ⟨p, c, s.flatMap escapeChar ++ ['"'] ++ rest, by simp, ?_⟩
  rw [escaped_eq, List.flatMap_append, List.flatMap_cons, hescape]
  simp only [List.cons_append, List.append_assoc]
  rw [lex_quote G, lex_escaped hpspace hp]
  simp [lexFrom, hslash, hcspace, hc]

/-! ## 5. The whole query -/

/-- The tokens, as `build_tsquery` joins them. -/
def render (tokens : List Text) : Text := [' ', '|', ' '].intercalate (tokens.map escaped)

theorem render_cons (token next : Text) (tokens : List Text) :
    render (token :: next :: tokens) = escaped token ++
      ' ' :: '|' :: ' ' :: render (next :: tokens) := by
  rw [render, List.map_cons, List.map_cons, List.intercalate_cons_cons]
  simp [render]

/-- The lexemes of a plain token with others behind it. -/
theorem lex_render_cons (G : Grammar space parse) (hspace : ∀ c ∈ token, space c = false)
    (hplain : Plain token) (next : Text) (tokens : List Text) :
    lex space (render (token :: next :: tokens)) = (lex space (render (next :: tokens))).map
      fun lexemes => .operand (doubleQuoted token) :: .operator '|' :: lexemes := by
  have hbar : space '|' = false := by
    rw [← Bool.not_eq_true]
    exact fun h => absurd (G.isSpace '|' h) (by decide)
  rw [lex, render_cons, lex_plain G hspace hplain]
  simp [lexFrom, lex, G.blank, hbar, show isOperator '|' = true from rfl, Function.comp_def]

theorem lex_render_singleton (G : Grammar space parse) (hspace : ∀ c ∈ token, space c = false)
    (hplain : Plain token) : lex space (render [token]) = some [.operand (doubleQuoted token)] := by
  have hrender : render [token] = escaped token ++ [] := by simp [render]
  rw [lex, hrender, lex_plain G hspace hplain, lexFrom]

/-- **Plain tokens** are operands with `|` between them. -/
theorem lex_render (G : Grammar space parse) (first : Text) (others : List Text)
    (hspace : ∀ token ∈ first :: others, ∀ c ∈ token, space c = false)
    (hplain : ∀ token ∈ first :: others, Plain token) :
    lex space (render (first :: others)) =
      some (alternatives (doubleQuoted first) (others.map doubleQuoted)) := by
  induction others generalizing first with
  | nil =>
    exact lex_render_singleton G (hspace first List.mem_cons_self) (hplain first List.mem_cons_self)
  | cons next others ih =>
    obtain ⟨hfirst, hspace⟩ := List.forall_mem_cons.mp hspace
    obtain ⟨hfirst', hplain⟩ := List.forall_mem_cons.mp hplain
    rw [lex_render_cons G hfirst hfirst', ih next hspace hplain]
    rfl

/-- The operands in front of the first label. -/
def unlabelled (lexemes : List Lexeme) : List Text :=
  (lexemes.takeWhile (· ≠ .operator ':')).filterMap Lexeme.operand?

/-- **A token that is not plain** is not among the operands where it should be. -/
theorem unlabelled_render (G : Grammar space parse) (tokens : List Text)
    (hspace : ∀ token ∈ tokens, ∀ c ∈ token, space c = false)
    (hplain : ¬ ∀ token ∈ tokens, Plain token) {lexemes : List Lexeme}
    (hlex : lex space (render tokens) = some lexemes) :
    ¬ unlabelled lexemes <+: tokens.map doubleQuoted := by
  induction tokens generalizing lexemes with
  | nil => exact absurd nofun hplain
  | cons token tokens ih =>
    obtain ⟨htoken, hspace⟩ := List.forall_mem_cons.mp hspace
    by_cases hfirst : Plain token
    · have hrest : ¬ ∀ token ∈ tokens, Plain token :=
        fun h => hplain (List.forall_mem_cons.mpr ⟨hfirst, h⟩)
      cases tokens with
      | nil => exact absurd nofun hrest
      | cons next tokens =>
        rw [lex_render_cons G htoken hfirst] at hlex
        obtain ⟨more, hmore, rfl⟩ := Option.map_eq_some_iff.mp hlex
        have hunlabelled : unlabelled (.operand (doubleQuoted token) :: .operator '|' :: more) =
            doubleQuoted token :: unlabelled more := rfl
        rw [hunlabelled, List.map_cons, List.cons_prefix_cons]
        exact fun h => ih hspace hrest hmore h.2
    · obtain ⟨rest, hrender⟩ : ∃ rest, render (token :: tokens) = escaped token ++ rest := by
        cases tokens with
        | nil => exact ⟨[], by simp [render]⟩
        | cons next tokens => exact ⟨_, render_cons token next tokens⟩
      obtain ⟨p, c, more, hlength, heq⟩ := lex_notPlain G htoken hfirst rest
      rw [lex, hrender, heq] at hlex
      obtain ⟨lexemes', -, rfl⟩ := Option.map_eq_some_iff.mp hlex
      have hunlabelled : ∃ others, unlabelled (.operand ('"' :: p) :: .operator c :: lexemes') =
          ('"' :: p) :: others := ⟨_, rfl⟩
      obtain ⟨others, hothers⟩ := hunlabelled
      rw [hothers, List.map_cons, List.cons_prefix_cons]
      rintro ⟨hsame, -⟩
      have hlengths := congrArg List.length hsame
      simp only [doubleQuoted, List.length_cons, List.cons_append, List.length_append,
        List.length_nil] at hlengths
      omega

/-! ## 6. The result -/

/-- An OR of operands has these operands. -/
theorem operands_of_disjuncts {q : Tsquery} {texts : List Text} (h : q.disjuncts = some texts) :
    q.operands = texts := by
  induction q generalizing texts with
  | operand text labels => exact Option.some.inj h
  | not q ih => exact nomatch h
  | and q q' ih ih' => exact nomatch h
  | or q q' ih ih' =>
    obtain ⟨ts, hts, hmap⟩ := Option.bind_eq_some_iff.mp h
    obtain ⟨ts', hts', rfl⟩ := Option.map_eq_some_iff.mp hmap
    rw [Tsquery.operands, ih hts, ih' hts']

theorem mem_longTokens : token ∈ longTokens queryTokens ↔
    token ∈ Str.words queryTokens ∧ 1 < token.length := by
  simp [longTokens, List.mem_eraseDups]

/-- `build_tsquery` joins the long tokens. -/
theorem buildTsquery_eq : buildTsquery queryTokens = render (longTokens queryTokens) := rfl

theorem buildTsquery_eq_nil : buildTsquery queryTokens = [] ↔ longTokens queryTokens = [] := by
  have hrender := @buildTsquery_eq queryTokens
  rw [hrender]
  cases longTokens queryTokens with
  | nil => exact iff_of_true rfl rfl
  | cons token tokens =>
    refine iff_of_false ?_ (List.cons_ne_nil _ _)
    cases tokens with
    | nil => simp [render, escaped]
    | cons next tokens => simp [render_cons, escaped]

/-- The query is empty exactly without a long token. -/
theorem empty_iff :
    buildTsquery queryTokens = [] ↔ ∀ token ∈ Str.words queryTokens, token.length ≤ 1 := by
  rw [buildTsquery_eq_nil, List.eq_nil_iff_forall_not_mem]
  constructor
  · intro h token htoken
    exact not_lt.mp fun hlong => h token (mem_longTokens.mpr ⟨htoken, hlong⟩)
  · intro h token htoken
    obtain ⟨hword, hlong⟩ := mem_longTokens.mp htoken
    exact absurd (h token hword) (not_le.mpr hlong)

/-- **When the generated query is well formed and means OR**: exactly if no token of more than one
character has one of `! & | ( ) :` in it. -/
theorem tsquery_iff (G : Grammar space parse) (queryTokens : Text) :
    WellFormed space parse queryTokens ↔
      ∀ token ∈ Str.words queryTokens, 1 < token.length → Plain token := by
  have hplain : (∀ token ∈ Str.words queryTokens, 1 < token.length → Plain token) ↔
      ∀ token ∈ longTokens queryTokens, Plain token :=
    ⟨fun h token htoken => h token (mem_longTokens.mp htoken).1 (mem_longTokens.mp htoken).2,
      fun h token hword hlong => h token (mem_longTokens.mpr ⟨hword, hlong⟩)⟩
  have hspace : ∀ token ∈ longTokens queryTokens, ∀ c ∈ token, space c = false := by
    intro token htoken c hc
    rw [← Bool.not_eq_true]
    intro h
    have hnot := Str.not_space_words (mem_longTokens.mp htoken).1 c hc
    rw [G.isSpace c h] at hnot
    exact nomatch hnot
  have hrender := @buildTsquery_eq queryTokens
  rw [hplain]
  constructor
  · intro h
    by_contra hbad
    have hne : buildTsquery queryTokens ≠ [] := by
      rw [Ne, buildTsquery_eq_nil]
      rintro hnil
      exact hbad (by rw [hnil]; nofun)
    obtain ⟨q, hq, hdisjuncts⟩ := h.disjunction hne
    obtain ⟨lexemes, hlex, hparse⟩ := Option.bind_eq_some_iff.mp hq
    rw [hrender] at hlex
    refine unlabelled_render G _ hspace hbad hlex ?_
    rw [← operands_of_disjuncts hdisjuncts]
    exact G.operands lexemes q hparse
  · intro h
    refine ⟨empty_iff, fun hne => ?_⟩
    rw [hrender]
    cases htokens : longTokens queryTokens with
    | nil => exact absurd (buildTsquery_eq_nil.mpr htokens) hne
    | cons first others =>
      rw [htokens] at h hspace
      obtain ⟨q, hparse, hdisjuncts⟩ :=
        G.disjunction (doubleQuoted first) (others.map doubleQuoted)
      refine ⟨q, ?_, hdisjuncts⟩
      rw [toTsquery, lex_render G first others hspace h]
      exact hparse

/-! ### Queries of operands and `|` -/

/-- Operands with `|` between them, and nothing else. -/
def parseOr : List Lexeme → Option Tsquery
  | [.operand text] => some (.operand text [])
  | .operand text :: .operator c :: rest =>
    if c = '|' then (parseOr rest).map (.or (.operand text [])) else none
  | _ => none

theorem parseOr_operands (lexemes : List Lexeme) :
    ∀ q, parseOr lexemes = some q → q.operands = lexemes.filterMap Lexeme.operand? := by
  induction lexemes using parseOr.induct with
  | case1 text =>
    intro q hq
    obtain rfl := Option.some.inj hq
    rfl
  | case2 text rest ih =>
    intro q hq
    rw [parseOr, if_pos rfl] at hq
    obtain ⟨q', hq', rfl⟩ := Option.map_eq_some_iff.mp hq
    rw [Tsquery.operands, ih q' hq']
    rfl
  | case3 text c rest hbar =>
    intro q hq
    rw [parseOr, if_neg hbar] at hq
    exact nomatch hq
  | case4 lexemes h h' =>
    intro q hq
    rw [parseOr] at hq
    · exact nomatch hq
    · exact h
    · exact h'

theorem parseOr_alternatives (first : Text) (others : List Text) :
    ∃ q, parseOr (alternatives first others) = some q ∧ q.disjuncts = some (first :: others) := by
  induction others generalizing first with
  | nil => exact ⟨_, rfl, rfl⟩
  | cons next others ih =>
    obtain ⟨q, hq, hdisjuncts⟩ := ih next
    refine ⟨.or (.operand first []) q, ?_, ?_⟩
    · have halternatives : alternatives first (next :: others) =
          .operand first :: .operator '|' :: alternatives next others := rfl
      rw [halternatives, parseOr, if_pos rfl, hq]
      rfl
    · rw [Tsquery.disjuncts, hdisjuncts]
      rfl

theorem parseOr_grammar : Grammar Str.isSpace parseOr where
  blank := by decide
  isSpace := fun _ h => h
  disjunction := parseOr_alternatives
  operands := by
    intro lexemes q hq
    rw [parseOr_operands lexemes q hq]
    exact (List.takeWhile_prefix _).filterMap _

/-- Two tokens, and one of a single character. -/
theorem tsquery_iff_twoTokens :
    WellFormed Str.isSpace parseOr ['a', 'b', ' ', 'c', ' ', 'd', '"', 'e'] :=
  (tsquery_iff parseOr_grammar _).mpr (by decide +kernel)

theorem not_wellFormed :
    ¬ ∀ (space : Char → Bool) (parse : List Lexeme → Option Tsquery), Grammar space parse →
      ∀ queryTokens, WellFormed space parse queryTokens := by
  intro h
  have hall := (h _ _ parseOr_grammar ['a', 'b', '|', 'c', 'd']).disjunction (by decide +kernel)
  obtain ⟨q, hq, hdisjuncts⟩ := hall
  have hend : toTsquery Str.isSpace parseOr (buildTsquery ['a', 'b', '|', 'c', 'd']) =
      some (.or (.operand ['"', 'a', 'b'] []) (.operand ['c', 'd', '"'] [])) := by decide +kernel
  rw [hend] at hq
  obtain rfl := Option.some.inj hq
  exact absurd hdisjuncts (by decide +kernel)

end AtlasKnowledge.Retrieval
