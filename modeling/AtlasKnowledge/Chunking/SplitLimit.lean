/-
# The recursive splitter

`_split_to_limit` calls itself on the two halves of a text.  `Splitting` is a call with all the
calls it makes, as a derivation: a call that has one comes back, and with these pieces.

* `split_to_limit`: every call comes back, and what its pieces are;
* `not_within`: an empty text is over a negative target and cannot be cut.
-/
import AtlasKnowledge.Chunking.Split

namespace AtlasKnowledge.Chunking

variable {text : Text} {targetTokens : Int} {pieces pieces' : List Text}

/-! ## 1. Calls -/

/-- A call of `_split_to_limit` that comes back, with what it returns. -/
inductive Splitting (targetTokens : Int) : Text → List Text → Prop where
  | whole {text : Text}
      (done : (estimateTokens text : Int) ≤ targetTokens ∨ text.length ≤ 1) :
      Splitting targetTokens text [text]
  | halves {text : Text} {left right : List Text}
      (more : ¬((estimateTokens text : Int) ≤ targetTokens ∨ text.length ≤ 1))
      (takes : Splitting targetTokens (text.take (cutOf text)) left)
      (drops : Splitting targetTokens (text.drop (cutOf text)) right) :
      Splitting targetTokens text (left ++ right)

/-- A text that is cut is longer than either half, and neither half is empty. -/
theorem length_halves (h : 1 < text.length) :
    (text.take (cutOf text)).length < text.length ∧ (text.drop (cutOf text)).length < text.length ∧
      text.take (cutOf text) ≠ [] ∧ text.drop (cutOf text) ≠ [] := by
  obtain ⟨hpos, hlt⟩ := cutOf_pos h
  have htake : (text.take (cutOf text)).length = cutOf text := List.length_take_of_le hlt.le
  have hdrop : (text.drop (cutOf text)).length = text.length - cutOf text := List.length_drop
  refine ⟨by omega, by omega, ?_, ?_⟩
  · rw [← List.length_pos_iff, htake]
    exact hpos
  · rw [← List.length_pos_iff, hdrop]
    omega

/-- **Every call comes back.**  The calls it makes are about shorter texts. -/
theorem splitting (text : Text) (targetTokens : Int) :
    Splitting targetTokens text (splitToLimit text targetTokens) := by
  induction hlength : text.length using Nat.strong_induction_on generalizing text with
  | _ n ih =>
    subst hlength
    rw [splitToLimit_eq]
    split_ifs with hdone
    · exact .whole hdone
    · obtain ⟨htake, hdrop, -, -⟩ := length_halves (not_le.mp (not_or.mp hdone).2)
      exact .halves hdone (ih _ htake _ rfl) (ih _ hdrop _ rfl)

/-- A call returns one thing. -/
theorem Splitting.unique (h : Splitting targetTokens text pieces)
    (h' : Splitting targetTokens text pieces') : pieces = pieces' := by
  induction h generalizing pieces' with
  | whole done =>
    cases h' with
    | whole => rfl
    | halves more => exact absurd done more
  | halves more _ _ ihTakes ihDrops =>
    cases h' with
    | whole done => exact absurd done more
    | halves _ takes drops => rw [ihTakes takes, ihDrops drops]

/-! ## 2. Pieces -/

/-- No piece of a text that is not empty is empty. -/
theorem Splitting.ne_nil (h : Splitting targetTokens text pieces) (hne : text ≠ []) :
    ∀ piece ∈ pieces, piece ≠ [] := by
  induction h with
  | whole => exact List.forall_mem_singleton.mpr hne
  | halves more _ _ ihTakes ihDrops =>
    obtain ⟨-, -, htake, hdrop⟩ := length_halves (not_le.mp (not_or.mp more).2)
    exact List.forall_mem_append.mpr ⟨ihTakes htake, ihDrops hdrop⟩

/-- A piece fits the target, or there was nothing left to cut. -/
theorem Splitting.fits (h : Splitting targetTokens text pieces) :
    ∀ piece ∈ pieces, (estimateTokens piece : Int) ≤ targetTokens ∨ piece.length ≤ 1 := by
  induction h with
  | whole done => exact List.forall_mem_singleton.mpr done
  | halves _ _ _ ihTakes ihDrops => exact List.forall_mem_append.mpr ⟨ihTakes, ihDrops⟩

/-- The pieces of an empty text. -/
theorem Splitting.of_nil (h : Splitting targetTokens [] pieces) : pieces = [[]] :=
  h.unique (.whole (.inr (Nat.zero_le 1)))

/-- A character counts as one token at most. -/
theorem estimateTokens_le_one (h : text.length ≤ 1) : estimateTokens text ≤ 1 := by
  have hcjk : text.countP isCjk ≤ text.length := List.countP_le_length
  rw [estimateTokens]
  omega

/-- So the pieces all fit a positive target. -/
theorem Splitting.le (h : Splitting targetTokens text pieces) (hpos : 1 ≤ targetTokens) :
    ∀ piece ∈ pieces, (estimateTokens piece : Int) ≤ targetTokens := by
  intro piece hpiece
  rcases h.fits piece hpiece with hfits | hshort
  · exact hfits
  · have hone := estimateTokens_le_one hshort
    omega

/-! ## 3. The result -/

/-- **Every call of `_split_to_limit` comes back.**  Its pieces put together are the text; they are
not empty unless the text is; and each fits the target or is a single character, or else is the
empty text.  So they all fit a positive target. -/
theorem split_to_limit (text : Text) (targetTokens : Int) :
    (∀ pieces, Splitting targetTokens text pieces ↔ pieces = splitToLimit text targetTokens) ∧
      (splitToLimit text targetTokens).flatten = text ∧
      (text ≠ [] → ∀ piece ∈ splitToLimit text targetTokens, piece ≠ []) ∧
      (∀ piece ∈ splitToLimit text targetTokens,
        (estimateTokens piece : Int) ≤ targetTokens ∨ piece.length = 1 ∨ text = [] ∧ piece = []) ∧
      (1 ≤ targetTokens → ∀ piece ∈ splitToLimit text targetTokens,
        (estimateTokens piece : Int) ≤ targetTokens) := by
  have hcall := splitting text targetTokens
  refine ⟨fun pieces => ⟨fun h => h.unique hcall, ?_⟩, flatten_splitToLimit text targetTokens,
    hcall.ne_nil, fun piece hpiece => ?_, hcall.le⟩
  · rintro rfl
    exact hcall
  · rcases hcall.fits piece hpiece with hfits | hshort
    · exact .inl hfits
    · cases text with
      | nil =>
        rw [hcall.of_nil] at hpiece
        exact .inr (.inr ⟨rfl, List.mem_singleton.mp hpiece⟩)
      | cons c text =>
        have hne := hcall.ne_nil (List.cons_ne_nil c text) piece hpiece
        have hpos := List.length_pos_iff.mpr hne
        exact .inr (.inl (by omega))

/-- The empty text does not fit a negative target, and is no character. -/
theorem not_within : ¬∀ piece ∈ splitToLimit [] (-1),
    (estimateTokens piece : Int) ≤ -1 ∨ piece.length = 1 := by decide

end AtlasKnowledge.Chunking
