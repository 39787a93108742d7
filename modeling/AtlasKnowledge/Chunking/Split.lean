/-
# Cutting text

The two pure helpers of `infrastructure/parsing/chunking/default_recursive.py` that cut a text at
the places `_SPLIT_POINTS` matches.

* `flatten_splitToLimit`: the pieces of a block are the block;
* `tailWithin_spec`: the overlap is the end of the text as far as its sentences fit.
-/
import AtlasKnowledge.Chunking.Tokens
import AtlasKnowledge.Lib.Str
import Mathlib.Data.List.MinMax

namespace AtlasKnowledge.Chunking

open Str

/-! ## 1. `_SPLIT_POINTS` -/

/-- `_SPLIT_POINTS` matches behind these characters; the last one comes first. -/
def splitsBehind : Text → Bool
  | c :: behind =>
    ['\u3002', '!', '?', '\uff01', ';', '\n'].contains c ||
      (isSpace c && behind.head? = some '.')
  | [] => false

/-- The positions `_SPLIT_POINTS` matches at, in a text that has `behind` in front of it. -/
def splitPointsFrom (behind : Text) : Text → List Nat
  | [] => []
  | c :: text =>
    let points := splitPointsFrom (c :: behind) text
    if splitsBehind (c :: behind) then (behind.length + 1) :: points else points

/-- `[m.start() for m in _SPLIT_POINTS.finditer(text)]`. -/
def splitPoints (text : Text) : List Nat := splitPointsFrom [] text

/-- The first part and the others. -/
def sentencesFrom (behind : Text) : Text → Text × List Text
  | [] => ([], [])
  | c :: text =>
    let r := sentencesFrom (c :: behind) text
    if splitsBehind (c :: behind) then ([c], r.1 :: r.2) else (c :: r.1, r.2)

/-- `_SPLIT_POINTS.split(text)`. -/
def sentences (text : Text) : List Text :=
  let r := sentencesFrom [] text; r.1 :: r.2

/-! ## 2. `_split_to_limit` -/

/-- Where a text is cut in two: at the split point nearest to its middle, or in the middle. -/
def cutOf (text : Text) : Nat :=
  let middle := text.length / 2
  let candidates := (splitPoints text).filter fun p => 0 < p ∧ p < text.length
  (candidates.argmin fun p : Nat => ((p : Int) - middle).natAbs).getD middle

/-- `_split_to_limit`, to a depth. -/
def splitWithin (targetTokens : Int) : Nat → Text → List Text
  | 0, text => [text]
  | depth + 1, text =>
    if (estimateTokens text : Int) ≤ targetTokens ∨ text.length ≤ 1 then [text]
    else
      splitWithin targetTokens depth (text.take (cutOf text)) ++
        splitWithin targetTokens depth (text.drop (cutOf text))

/-- `_split_to_limit`. -/
def splitToLimit (text : Text) (targetTokens : Int) : List Text :=
  splitWithin targetTokens text.length text

/-! ## 3. `_tail_within` -/

/-- The loop of `_tail_within`, over the pieces from the last one on. -/
def tailFrom (overlapTokens : Int) (tail : List Text) (tokens : Nat) : List Text → List Text
  | [] => tail
  | piece :: pieces =>
    let pieceTokens := estimateTokens piece
    if overlapTokens < (tokens + pieceTokens : Nat) then tail
    else tailFrom overlapTokens (piece :: tail) (tokens + pieceTokens) pieces

/-- `_tail_within`. -/
def tailWithin (text : Text) (overlapTokens : Int) : Text :=
  if overlapTokens ≤ 0 then []
  else
    let pieces := (sentences text).filter fun p => p ≠ [] ∧ strip p ≠ []
    strip (tailFrom overlapTokens [] 0 pieces.reverse).flatten

/-! ## 4. The pieces of a block -/

variable {text : Text} {targetTokens overlapTokens : Int}

/-- A cut leaves something on either side. -/
theorem cutOf_pos (h : 1 < text.length) : 0 < cutOf text ∧ cutOf text < text.length := by
  simp only [cutOf]
  generalize hcandidates : (splitPoints text).filter (fun p => 0 < p ∧ p < text.length) = candidates
  cases hcut : candidates.argmin fun p : Nat => ((p : Int) - (text.length / 2 : Nat)).natAbs with
  | none =>
    rw [Option.getD_none]
    omega
  | some p =>
    rw [Option.getD_some]
    have hmem := List.argmin_mem hcut
    rw [← hcandidates] at hmem
    simpa using (List.mem_filter.mp hmem).2

/-- A depth of the text's length is as good as any greater one. -/
theorem splitWithin_eq {n m : Nat} (hn : text.length ≤ n) (hm : text.length ≤ m) :
    splitWithin targetTokens n text = splitWithin targetTokens m text := by
  induction n generalizing m text with
  | zero =>
    obtain rfl : text = [] := List.length_eq_zero_iff.mp (Nat.le_zero.mp hn)
    cases m with
    | zero => rfl
    | succ m => rw [splitWithin, splitWithin, if_pos (.inr (Nat.zero_le 1))]
  | succ n ih =>
    cases m with
    | zero =>
      obtain rfl : text = [] := List.length_eq_zero_iff.mp (Nat.le_zero.mp hm)
      rw [splitWithin, splitWithin, if_pos (.inr (Nat.zero_le 1))]
    | succ m =>
      rw [splitWithin, splitWithin]
      split_ifs with hdone
      · rfl
      · have hcut := cutOf_pos (not_le.mp (not_or.mp hdone).2)
        have htake : (text.take (cutOf text)).length = cutOf text :=
          List.length_take_of_le hcut.2.le
        have hdrop : (text.drop (cutOf text)).length = text.length - cutOf text :=
          List.length_drop
        rw [ih (m := m) (by omega) (by omega), ih (m := m) (by omega) (by omega)]

/-- **The recursion of `_split_to_limit`.** -/
theorem splitToLimit_eq (text : Text) (targetTokens : Int) :
    splitToLimit text targetTokens =
      if (estimateTokens text : Int) ≤ targetTokens ∨ text.length ≤ 1 then [text]
      else
        splitToLimit (text.take (cutOf text)) targetTokens ++
          splitToLimit (text.drop (cutOf text)) targetTokens := by
  rw [splitToLimit, splitWithin_eq le_rfl (Nat.le_succ text.length), splitWithin]
  split_ifs with hdone
  · rfl
  · rw [splitToLimit, splitToLimit, splitWithin_eq le_rfl (List.length_take_le' _ _),
      splitWithin_eq le_rfl (List.drop_sublist _ _).length_le]

theorem flatten_splitWithin (depth : Nat) (text : Text) :
    (splitWithin targetTokens depth text).flatten = text := by
  induction depth generalizing text with
  | zero => simp [splitWithin]
  | succ depth ih =>
    rw [splitWithin]
    split_ifs
    · simp
    · rw [List.flatten_append, ih, ih, List.take_append_drop]

/-- **The pieces of a block are the block.** -/
theorem flatten_splitToLimit (text : Text) (targetTokens : Int) :
    (splitToLimit text targetTokens).flatten = text := flatten_splitWithin _ text

/-- The first piece starts as the text does. -/
theorem head_splitWithin (depth : Nat) (c : Char) (text : Text) :
    ∃ piece pieces, splitWithin targetTokens depth (c :: text) = (c :: piece) :: pieces := by
  induction depth generalizing text with
  | zero => exact ⟨text, [], rfl⟩
  | succ depth ih =>
    rw [splitWithin]
    split_ifs with hdone
    · exact ⟨text, [], rfl⟩
    · obtain ⟨cut, hcut⟩ := Nat.exists_eq_succ_of_ne_zero
        (cutOf_pos (not_le.mp (not_or.mp hdone).2)).1.ne'
      obtain ⟨piece, pieces, h⟩ := ih (text.take cut)
      rw [hcut, List.take_succ_cons, h]
      exact ⟨piece, _, rfl⟩

/-- There is always a piece. -/
theorem splitToLimit_ne_nil (text : Text) (targetTokens : Int) :
    splitToLimit text targetTokens ≠ [] := by
  cases text with
  | nil => exact List.cons_ne_nil _ _
  | cons c text =>
    obtain ⟨piece, pieces, h⟩ := @head_splitWithin targetTokens (c :: text).length c text
    rw [splitToLimit, h]
    exact List.cons_ne_nil _ _

/-! ## 5. The overlap -/

theorem flatten_sentencesFrom (behind text : Text) :
    (sentencesFrom behind text).1 ++ (sentencesFrom behind text).2.flatten = text := by
  induction text generalizing behind with
  | nil => rfl
  | cons c text ih =>
    rw [sentencesFrom]
    split_ifs
    · rw [List.flatten_cons, ih, List.singleton_append]
    · rw [List.cons_append, ih]

theorem flatten_sentences (text : Text) : (sentences text).flatten = text :=
  flatten_sentencesFrom [] text

/-- The loop keeps the last pieces, as far as they fit. -/
theorem tailFrom_spec (tail pieces : List Text)
    (h : ((tail.map estimateTokens).sum : Int) ≤ overlapTokens) :
    ∃ kept, kept <+: pieces ∧
      tailFrom overlapTokens tail (tail.map estimateTokens).sum pieces = kept.reverse ++ tail ∧
      (((kept.reverse ++ tail).map estimateTokens).sum : Int) ≤ overlapTokens := by
  induction pieces generalizing tail with
  | nil => exact ⟨[], List.nil_prefix, rfl, h⟩
  | cons piece pieces ih =>
    rw [tailFrom]
    split_ifs with hover
    · exact ⟨[], List.nil_prefix, rfl, h⟩
    · have hsum : (tail.map estimateTokens).sum + estimateTokens piece
          = ((piece :: tail).map estimateTokens).sum := by
        rw [List.map_cons, List.sum_cons, Nat.add_comm]
      rw [hsum] at hover ⊢
      obtain ⟨kept, hkept, htail, hfits⟩ := ih (piece :: tail) (not_lt.mp hover)
      refine ⟨piece :: kept, List.cons_prefix_cons.mpr ⟨rfl, hkept⟩, ?_, ?_⟩
      · rw [htail, List.reverse_cons, List.append_assoc, List.singleton_append]
      · rw [List.reverse_cons, List.append_assoc, List.singleton_append]
        exact hfits

/-- The blank pieces that are left out have nothing but white space. -/
theorem nonSpace_pieces (text : Text) :
    nonSpace ((sentences text).filter fun p => p ≠ [] ∧ strip p ≠ []).flatten = nonSpace text := by
  have hfilter : ∀ pieces : List Text,
      nonSpace (pieces.filter fun p => p ≠ [] ∧ strip p ≠ []).flatten
        = nonSpace pieces.flatten := by
    intro pieces
    induction pieces with
    | nil => rfl
    | cons piece pieces ih =>
      rw [List.filter_cons]
      split_ifs with hkeep
      · rw [List.flatten_cons, List.flatten_cons, nonSpace_append, nonSpace_append, ih]
      · have hblank : strip piece = [] := by
          by_contra hne
          refine hkeep (decide_eq_true ⟨?_, hne⟩)
          rintro rfl
          exact hne rfl
        have hnone : nonSpace piece = [] := nonSpace_eq_nil.mpr (strip_eq_nil.mp hblank)
        rw [List.flatten_cons, nonSpace_append, hnone, List.nil_append, ih]
  rw [hfilter, flatten_sentences]

/-- **The overlap** is the end of the text, up to white space, fits the budget, and is empty or
has more than white space. -/
theorem tailWithin_spec (text : Text) (overlapTokens : Int) :
    nonSpace (tailWithin text overlapTokens) <:+ nonSpace text ∧
      (tailWithin text overlapTokens = [] ∨
        (estimateTokens (tailWithin text overlapTokens) : Int) ≤ overlapTokens) ∧
      (tailWithin text overlapTokens = [] ∨ nonSpace (tailWithin text overlapTokens) ≠ []) := by
  unfold tailWithin
  split_ifs with hoverlap
  · exact ⟨List.nil_suffix, .inl rfl, .inl rfl⟩
  · have hpieces := nonSpace_pieces text
    generalize (sentences text).filter (fun p => p ≠ [] ∧ strip p ≠ []) = pieces at hpieces ⊢
    obtain ⟨kept, ⟨left, hleft⟩, htail, hfits⟩ :=
      @tailFrom_spec overlapTokens [] pieces.reverse (not_le.mp hoverlap).le
    rw [List.append_nil] at htail hfits
    have hsplit : pieces = left.reverse ++ kept.reverse := by
      rw [← List.reverse_append, hleft, List.reverse_reverse]
    simp only [List.map_nil, List.sum_nil] at htail
    simp only [htail]
    refine ⟨?_, .inr ?_, ?_⟩
    · rw [nonSpace_strip, ← hpieces, hsplit, List.flatten_append, nonSpace_append]
      exact List.suffix_append _ _
    · have hestimate := estimateTokens_sublist (strip_sublist kept.reverse.flatten)
      have hsum := estimateTokens_flatten kept.reverse
      omega
    · by_cases hnil : strip kept.reverse.flatten = []
      · exact .inl hnil
      · exact .inr (nonSpace_strip_ne_nil hnil)

end AtlasKnowledge.Chunking
