/-
# `str.isspace`, `str.strip`, `str.split` and `str.splitlines`

Python's white space, on lists of characters: the characters that `str.strip` takes off, at
which `str.split` splits and that `\s` matches.  The line boundaries of `str.splitlines` are among
them.
-/
import Mathlib.Data.List.DropRight

namespace Str

/-- `str.isspace` of one character. -/
def isSpace (c : Char) : Bool :=
  (0x09 ≤ c.toNat ∧ c.toNat ≤ 0x0d) ∨ (0x1c ≤ c.toNat ∧ c.toNat ≤ 0x20) ∨ c.toNat = 0x85 ∨
    c.toNat = 0xa0 ∨ c.toNat = 0x1680 ∨ (0x2000 ≤ c.toNat ∧ c.toNat ≤ 0x200a) ∨
    c.toNat = 0x2028 ∨ c.toNat = 0x2029 ∨ c.toNat = 0x202f ∨ c.toNat = 0x205f ∨ c.toNat = 0x3000

/-- `str.strip`. -/
def strip (s : List Char) : List Char := (s.dropWhile isSpace).rdropWhile isSpace

/-- `str.split`, without an argument. -/
def words (s : List Char) : List (List Char) := (s.splitOnP isSpace).filter fun w => w ≠ []

/-- A piece has nothing in it at which the text is split. -/
theorem forall_mem_splitOnP (p : Char → Bool) (s : List Char) :
    ∀ part ∈ s.splitOnP p, ∀ c ∈ part, p c = false := by
  induction s with
  | nil => simp
  | cons c s ih =>
    rw [List.splitOnP_cons_eq_if_modifyHead]
    split_ifs with hsplit
    · exact List.forall_mem_cons.mpr ⟨nofun, ih⟩
    · obtain ⟨part, parts, hparts⟩ := List.exists_cons_of_ne_nil (List.splitOnP_ne_nil p s)
      rw [hparts] at ih ⊢
      obtain ⟨hpart, hrest⟩ := List.forall_mem_cons.mp ih
      exact List.forall_mem_cons.mpr
        ⟨List.forall_mem_cons.mpr ⟨(Bool.not_eq_true _).mp hsplit, hpart⟩, hrest⟩

/-- What is in a piece is in the text. -/
theorem mem_of_mem_splitOnP (p : Char → Bool) (s : List Char) :
    ∀ part ∈ s.splitOnP p, ∀ c ∈ part, c ∈ s := by
  induction s with
  | nil => simp
  | cons c s ih =>
    have htail : ∀ part ∈ s.splitOnP p, ∀ d ∈ part, d ∈ c :: s :=
      fun part hpart d hd => List.mem_cons_of_mem c (ih part hpart d hd)
    rw [List.splitOnP_cons_eq_if_modifyHead]
    split_ifs with hsplit
    · exact List.forall_mem_cons.mpr ⟨nofun, htail⟩
    · obtain ⟨part, parts, hparts⟩ := List.exists_cons_of_ne_nil (List.splitOnP_ne_nil p s)
      rw [hparts] at htail ⊢
      obtain ⟨hpart, hrest⟩ := List.forall_mem_cons.mp htail
      exact List.forall_mem_cons.mpr
        ⟨List.forall_mem_cons.mpr ⟨List.mem_cons_self, hpart⟩, hrest⟩

/-- A word has no white space. -/
theorem not_space_words {s w : List Char} (h : w ∈ words s) : ∀ c ∈ w, isSpace c = false :=
  forall_mem_splitOnP isSpace s w (List.mem_filter.mp h).1

/-- Stripping leaves nothing of white space, and of nothing else. -/
theorem strip_eq_nil {s : List Char} : strip s = [] ↔ ∀ c ∈ s, isSpace c = true := by
  unfold strip
  rw [List.rdropWhile_eq_nil_iff]
  constructor
  · intro h c hc
    rw [← List.takeWhile_append_dropWhile (p := isSpace) (l := s)] at hc
    rcases List.mem_append.mp hc with htake | hdrop
    · exact List.mem_takeWhile_imp htake
    · exact h c hdrop
  · intro h c hc
    exact h c (List.dropWhile_suffix isSpace |>.subset hc)

/-- White space in front of a text is stripped. -/
theorem strip_append_left {u : List Char} (s : List Char) (hu : ∀ c ∈ u, isSpace c = true) :
    strip (u ++ s) = strip s := by
  unfold strip
  rw [List.dropWhile_append_of_pos hu]

/-- White space behind a text is stripped. -/
theorem strip_append_right {v : List Char} (s : List Char) (hv : ∀ c ∈ v, isSpace c = true) :
    strip (s ++ v) = strip s := by
  have hdrop : ∀ s : List Char, (s ++ v).rdropWhile isSpace = s.rdropWhile isSpace := by
    intro s
    simp only [List.rdropWhile, List.reverse_append]
    rw [List.dropWhile_append_of_pos (by simpa using hv)]
  by_cases hs : ∀ c ∈ s, isSpace c = true
  · have hall : ∀ c ∈ s ++ v, isSpace c = true := by
      intro c hc
      exact (List.mem_append.mp hc).elim (hs c) (hv c)
    rw [strip_eq_nil.mpr hs, strip_eq_nil.mpr hall]
  · have hne : s.dropWhile isSpace ≠ [] := by
      rw [Ne, List.dropWhile_eq_nil_iff]
      exact hs
    unfold strip
    rw [List.dropWhile_append, if_neg (by simpa using hne), hdrop]

/-- The characters that are not white space. -/
def nonSpace (s : List Char) : List Char := s.filter fun c => !isSpace c

theorem nonSpace_eq_nil {s : List Char} : nonSpace s = [] ↔ ∀ c ∈ s, isSpace c = true := by
  simp [nonSpace, List.filter_eq_nil_iff]

@[simp] theorem nonSpace_append (s t : List Char) : nonSpace (s ++ t) = nonSpace s ++ nonSpace t :=
  List.filter_append _ _

theorem nonSpace_dropWhile (s : List Char) : nonSpace (s.dropWhile isSpace) = nonSpace s := by
  have hblank : nonSpace (s.takeWhile isSpace) = [] :=
    nonSpace_eq_nil.mpr fun c hc => List.mem_takeWhile_imp hc
  calc
    nonSpace (s.dropWhile isSpace)
        = nonSpace (s.takeWhile isSpace) ++ nonSpace (s.dropWhile isSpace) := by
      rw [hblank, List.nil_append]
    _ = nonSpace s := by rw [← nonSpace_append, List.takeWhile_append_dropWhile]

/-- Stripping takes off white space only. -/
theorem nonSpace_strip (s : List Char) : nonSpace (strip s) = nonSpace s := by
  have hreverse : ∀ s : List Char, nonSpace s.reverse = (nonSpace s).reverse :=
    fun s => List.filter_reverse
  rw [strip, List.rdropWhile, hreverse, nonSpace_dropWhile, hreverse, List.reverse_reverse,
    nonSpace_dropWhile]

/-- What is stripped is part of the text. -/
theorem strip_sublist (s : List Char) : (strip s).Sublist s :=
  ((List.rdropWhile_prefix isSpace _).sublist).trans (List.dropWhile_suffix isSpace).sublist

/-- A stripped text is empty or has more than white space. -/
theorem nonSpace_strip_ne_nil {s : List Char} (h : strip s ≠ []) : nonSpace (strip s) ≠ [] := by
  rw [nonSpace_strip]
  exact fun hnil => h (strip_eq_nil.mpr (nonSpace_eq_nil.mp hnil))

/-! ## Lines -/

/-- A line boundary of `str.splitlines`. -/
def isLineBreak (c : Char) : Bool :=
  (0x0a ≤ c.toNat ∧ c.toNat ≤ 0x0d) ∨ (0x1c ≤ c.toNat ∧ c.toNat ≤ 0x1e) ∨ c.toNat = 0x85 ∨
    c.toNat = 0x2028 ∨ c.toNat = 0x2029

/-- `str.splitlines`: CR LF is one boundary, and a text that ends with one has no line behind it. -/
def splitlines : List Char → List (List Char)
  | [] => []
  | '\r' :: '\n' :: s => [] :: splitlines s
  | c :: s =>
    if isLineBreak c then [] :: splitlines s
    else
      match splitlines s with
      | [] => [[c]]
      | line :: lines => (c :: line) :: lines

/-- The first line is what stands before the first boundary. -/
theorem head_splitlines : ∀ {s : List Char}, s ≠ [] →
    (splitlines s).head? = some (s.takeWhile fun c => !isLineBreak c) := by
  intro s
  fun_induction splitlines s with
  | case1 => exact fun h => absurd rfl h
  | case2 s ih => intro _; simp [isLineBreak]
  | case3 c s _ hbreak ih => intro _; simp [hbreak]
  | case4 c s _ hbreak hnil ih =>
    intro _
    cases s with
    | nil => simp [hbreak]
    | cons d s =>
      have hhead := ih (by simp)
      rw [hnil] at hhead
      cases hhead
  | case5 c s _ hbreak line lines hlines ih =>
    intro _
    have hs : s ≠ [] := by
      rintro rfl
      cases hlines
    have hhead := ih hs
    rw [hlines] at hhead
    have hline : line = s.takeWhile fun c => !isLineBreak c := Option.some.inj hhead
    simp [hbreak, hline]

/-- `str.strip`, of the characters in `chars`. -/
def stripChars (chars s : List Char) : List Char :=
  (s.dropWhile (· ∈ chars)).rdropWhile (· ∈ chars)

/-- What is stripped so is one piece of the text. -/
theorem stripChars_infix (chars s : List Char) : stripChars chars s <:+: s :=
  (List.rdropWhile_prefix _ _).isInfix.trans (List.dropWhile_suffix _).isInfix

/-- It does not begin with one of the characters. -/
theorem head_stripChars {chars s : List Char} {c : Char}
    (h : (stripChars chars s).head? = some c) : c ∉ chars := by
  have hdrop : (s.dropWhile (· ∈ chars)).head? = some c := by
    obtain ⟨rest, hrest⟩ := List.rdropWhile_prefix (· ∈ chars) (s.dropWhile (· ∈ chars))
    cases hstrip : stripChars chars s with
    | nil => simp [hstrip] at h
    | cons d tail =>
      rw [hstrip] at h
      rw [stripChars] at hstrip
      rw [← hrest, hstrip]
      exact h
  intro hmem
  have hhead := List.head?_dropWhile_not (fun c => decide (c ∈ chars)) s
  rw [hdrop] at hhead
  simp [hmem] at hhead

end Str
