/-
# Greedy packing

Items with weights go into groups in their order: a group is closed when the next item would take
its weight over the limit.

* `flatten_pack`: nothing is lost, repeated or moved;
* `pack_ne_nil`, `head_pack`: no group is empty, and the first one starts with the first item;
* `pack_fits`, `pack_greedy`: a group keeps to the limit unless it is a single item, and has no
  room for the next item.
-/
import Mathlib.Algebra.Order.Ring.Int
import Mathlib.Data.List.Basic

namespace Packing

variable {α : Type*} (limit : Int) (weight : α → Nat)

/-- The weight of a group. -/
def total (group : List α) : Nat := (group.map weight).sum

/-- The groups of the items that are left, with a group open. -/
def packFrom (group : List α) : List α → List (List α)
  | [] => [group]
  | x :: xs =>
    if limit < (total weight group + weight x : Nat) then group :: packFrom [x] xs
    else packFrom (group ++ [x]) xs

def pack : List α → List (List α)
  | [] => []
  | x :: xs => packFrom limit weight [x] xs

variable {limit weight}

@[simp] theorem total_nil : total weight ([] : List α) = 0 := rfl

@[simp] theorem total_append (l l' : List α) :
    total weight (l ++ l') = total weight l + total weight l' := by
  rw [total, List.map_append, List.sum_append]
  rfl

@[simp] theorem total_singleton (x : α) : total weight [x] = weight x := Nat.add_zero _

theorem flatten_packFrom (group items : List α) :
    (packFrom limit weight group items).flatten = group ++ items := by
  induction items generalizing group with
  | nil => simp [packFrom]
  | cons x items ih =>
    rw [packFrom]
    split_ifs
    · rw [List.flatten_cons, ih, List.singleton_append]
    · rw [ih, List.append_assoc, List.singleton_append]

/-- **Nothing is lost, repeated or moved.** -/
theorem flatten_pack (items : List α) : (pack limit weight items).flatten = items := by
  cases items with
  | nil => rfl
  | cons x items => exact flatten_packFrom [x] items

theorem packFrom_ne_nil {group items : List α} (h : group ≠ []) :
    ∀ g ∈ packFrom limit weight group items, g ≠ [] := by
  induction items generalizing group with
  | nil => exact List.forall_mem_singleton.mpr h
  | cons x items ih =>
    rw [packFrom]
    split_ifs
    · exact List.forall_mem_cons.mpr ⟨h, ih (List.cons_ne_nil _ _)⟩
    · exact ih (List.append_ne_nil_of_left_ne_nil h _)

theorem pack_ne_nil {items : List α} : ∀ g ∈ pack limit weight items, g ≠ [] := by
  cases items with
  | nil => exact fun g hg => absurd hg List.not_mem_nil
  | cons x items => exact packFrom_ne_nil (List.cons_ne_nil _ _)

theorem head_packFrom (group items : List α) :
    ∃ more groups, packFrom limit weight group items = (group ++ more) :: groups := by
  induction items generalizing group with
  | nil => exact ⟨[], [], by rw [List.append_nil]; rfl⟩
  | cons x items ih =>
    rw [packFrom]
    split_ifs
    · exact ⟨[], _, by rw [List.append_nil]⟩
    · obtain ⟨more, groups, h⟩ := ih (group ++ [x])
      exact ⟨x :: more, groups, by rw [h, List.append_assoc, List.singleton_append]⟩

/-- The first group starts with the first item. -/
theorem head_pack (x : α) (items : List α) :
    ∃ more groups, pack limit weight (x :: items) = (x :: more) :: groups :=
  head_packFrom [x] items

theorem packFrom_fits {group items : List α}
    (h : group.length ≤ 1 ∨ (total weight group : Int) ≤ limit) :
    ∀ g ∈ packFrom limit weight group items, g.length ≤ 1 ∨ (total weight g : Int) ≤ limit := by
  induction items generalizing group with
  | nil => exact List.forall_mem_singleton.mpr h
  | cons x items ih =>
    rw [packFrom]
    split_ifs with hover
    · exact List.forall_mem_cons.mpr ⟨h, ih (.inl (Nat.le_refl 1))⟩
    · refine ih (.inr ?_)
      rw [total_append, total_singleton]
      exact not_lt.mp hover

/-- **A group keeps to the limit**, or is a single item. -/
theorem pack_fits {items : List α} :
    ∀ g ∈ pack limit weight items, g.length ≤ 1 ∨ (total weight g : Int) ≤ limit := by
  cases items with
  | nil => exact fun g hg => absurd hg List.not_mem_nil
  | cons x items => exact packFrom_fits (.inl (Nat.le_refl 1))

theorem packFrom_greedy (group items : List α) :
    (packFrom limit weight group items).IsChain fun g next =>
      ∀ x ∈ next.head?, limit < (total weight g + weight x : Nat) := by
  induction items generalizing group with
  | nil => exact .singleton _
  | cons x items ih =>
    rw [packFrom]
    split_ifs with hover
    · have hrest := ih [x]
      obtain ⟨more, groups, hhead⟩ := @head_packFrom α limit weight [x] items
      rw [hhead] at hrest ⊢
      refine List.isChain_cons_cons.mpr ⟨?_, hrest⟩
      intro y hy
      obtain rfl := Option.some.inj hy
      exact hover
    · exact ih _

/-- **The first item of a group did not fit into the one before.** -/
theorem pack_greedy (items : List α) :
    (pack limit weight items).IsChain fun g next =>
      ∀ x ∈ next.head?, limit < (total weight g + weight x : Nat) := by
  cases items with
  | nil => exact .nil
  | cons x items => exact packFrom_greedy [x] items

end Packing
