/-
# The token estimate

`infrastructure/parsing/chunking/tokens.py`: a CJK character counts as one token, four others
count as one.

* `estimateTokens_append`, `estimateTokens_sublist`: the estimate of a text is at most the sum of
  the estimates of its parts, and is not less than that of anything left of it.
-/
import AtlasKnowledge.Domain.Document
import Mathlib.Data.List.Infix
import Mathlib.Algebra.GroupWithZero.Nat

namespace AtlasKnowledge.Chunking

/-- `_CJK`. -/
def isCjk (c : Char) : Bool :=
  (0x3000 ≤ c.toNat ∧ c.toNat ≤ 0x303f) ∨ (0x3040 ≤ c.toNat ∧ c.toNat ≤ 0x30ff) ∨
    (0x3400 ≤ c.toNat ∧ c.toNat ≤ 0x4dbf) ∨ (0x4e00 ≤ c.toNat ∧ c.toNat ≤ 0x9fff) ∨
    (0xac00 ≤ c.toNat ∧ c.toNat ≤ 0xd7af) ∨ (0xf900 ≤ c.toNat ∧ c.toNat ≤ 0xfaff) ∨
    (0xff00 ≤ c.toNat ∧ c.toNat ≤ 0xffef)

/-- `estimate_tokens`. -/
def estimateTokens (text : Text) : Nat :=
  let cjk := text.countP isCjk
  cjk + (text.length - cjk + 3) / 4

/-- The other characters. -/
def others (text : Text) : Nat := text.countP fun c => !isCjk c

theorem estimateTokens_eq (text : Text) :
    estimateTokens text = text.countP isCjk + (others text + 3) / 4 := by
  have hlength : text.length = text.countP isCjk + others text := by
    simpa [others] using List.length_eq_countP_add_countP isCjk (l := text)
  rw [estimateTokens, hlength, Nat.add_sub_cancel_left]

@[simp] theorem estimateTokens_nil : estimateTokens [] = 0 := rfl

/-- **Subadditivity.** -/
theorem estimateTokens_append (s t : Text) :
    estimateTokens (s ++ t) ≤ estimateTokens s + estimateTokens t := by
  have hothers : others (s ++ t) = others s + others t := List.countP_append
  rw [estimateTokens_eq, estimateTokens_eq, estimateTokens_eq, List.countP_append, hothers]
  omega

/-- **Monotonicity.** -/
theorem estimateTokens_sublist {s t : Text} (h : s.Sublist t) :
    estimateTokens s ≤ estimateTokens t := by
  have hcjk : s.countP isCjk ≤ t.countP isCjk := h.countP_le
  have hothers : others s ≤ others t := h.countP_le
  rw [estimateTokens_eq, estimateTokens_eq]
  omega

theorem estimateTokens_flatten (texts : List Text) :
    estimateTokens texts.flatten ≤ (texts.map estimateTokens).sum := by
  induction texts with
  | nil => exact Nat.le_refl 0
  | cons text texts ih =>
    rw [List.flatten_cons, List.map_cons, List.sum_cons]
    exact Nat.le_trans (estimateTokens_append _ _) (Nat.add_le_add_left ih _)

end AtlasKnowledge.Chunking
