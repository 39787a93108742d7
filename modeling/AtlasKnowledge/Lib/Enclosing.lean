/-
# Enclosing items

An outline lists items with levels, and an item encloses what stands behind it up to the next item
of its level or above.  Those that enclose the end of the outline are the items without a later one
of their level or above; a stack that pops while its top is not above the new item holds them.

* `enclosing_pairwise`: their levels increase strictly;
* `enclosing_concat`: the stack's step.
-/
import Mathlib.Data.List.DropRight
import Mathlib.Order.Basic
import Mathlib.Order.Lattice

namespace Enclosing

variable {α β : Type*} [LinearOrder β] (level : α → β)

/-- The items without a later one of their level or above, in their order. -/
def enclosing : List α → List α
  | [] => []
  | x :: xs => if ∀ y ∈ xs, level x < level y then x :: enclosing xs else enclosing xs

variable {level}

theorem enclosing_sublist (xs : List α) : (enclosing level xs).Sublist xs := by
  induction xs with
  | nil => exact List.Sublist.slnil
  | cons x xs ih =>
    rw [enclosing]
    split_ifs
    · exact ih.cons_cons x
    · exact ih.cons x

/-- **The levels increase strictly.** -/
theorem enclosing_pairwise (xs : List α) :
    (enclosing level xs).Pairwise fun x y => level x < level y := by
  induction xs with
  | nil => exact List.Pairwise.nil
  | cons x xs ih =>
    rw [enclosing]
    split_ifs with habove
    · exact List.pairwise_cons.mpr ⟨fun y hy => habove y ((enclosing_sublist xs).subset hy), ih⟩
    · exact ih

/-- A further item leaves those above it. -/
theorem enclosing_concat_filter (xs : List α) (x : α) :
    enclosing level (xs ++ [x]) = (enclosing level xs).filter (fun y => level y < level x) ++
      [x] := by
  induction xs with
  | nil => simp [enclosing]
  | cons y xs ih =>
    rw [List.cons_append, enclosing, enclosing, ih]
    have hall : (∀ z ∈ xs ++ [x], level y < level z) ↔
        (∀ z ∈ xs, level y < level z) ∧ level y < level x := by
      rw [List.forall_mem_append, List.forall_mem_singleton]
    by_cases habove : ∀ z ∈ xs, level y < level z
    · by_cases hx : level y < level x
      · rw [if_pos (hall.mpr ⟨habove, hx⟩), if_pos habove,
          List.filter_cons_of_pos (by simpa using hx),
          List.cons_append]
      · rw [if_neg fun h => hx (hall.mp h).2, if_pos habove,
          List.filter_cons_of_neg (by simpa using hx)]
    · rw [if_neg fun h => habove (hall.mp h).1, if_neg habove]

/-- Where the levels increase, those above the new item are in front of the others. -/
theorem rdropWhile_eq_filter {xs : List α} (x : α)
    (h : xs.Pairwise fun y z => level y < level z) :
    xs.rdropWhile (fun y => level x ≤ level y) = xs.filter fun y => level y < level x := by
  induction xs using List.reverseRecOn with
  | nil => rfl
  | append_singleton xs y ih =>
    obtain ⟨hxs, -, hlast⟩ := List.pairwise_append.mp h
    rw [List.filter_append]
    by_cases hy : level x ≤ level y
    · have hnone : [y].filter (fun y => level y < level x) = [] :=
        List.filter_eq_nil_iff.mpr fun z hz => by
          rw [List.mem_singleton.mp hz]
          simpa using hy
      rw [List.rdropWhile_concat_pos _ _ _ (by simpa using hy), ih hxs, hnone, List.append_nil]
    · have hbelow : level y < level x := lt_of_not_ge hy
      have hall : ∀ z ∈ xs, level z < level x :=
        fun z hz => lt_trans (hlast z hz y (List.mem_singleton_self y)) hbelow
      rw [List.rdropWhile_concat_neg _ _ _ (by simpa using hy),
        List.filter_eq_self.mpr fun z hz => by simpa using hall z hz,
        List.filter_eq_self.mpr fun z hz => by
          rw [List.mem_singleton.mp hz]
          simpa using hbelow]

/-- **The stack's step**: pop while the top is not above the new item, and push it. -/
theorem enclosing_concat (xs : List α) (x : α) :
    enclosing level (xs ++ [x]) =
      (enclosing level xs).rdropWhile (fun y => level x ≤ level y) ++ [x] := by
  rw [enclosing_concat_filter, rdropWhile_eq_filter x (enclosing_pairwise xs)]

end Enclosing
