/-
# Ordered forests

Trees of named nodes with leaves among them, in the form of first child and next sibling, so that
every function on them is a plain recursion.

* `sum_elements`: over all nodes, a weight that does not count the nodes a leaf is not under comes
  to the sum along the path to that leaf;
* `mem_leaves_iff`: every leaf has a path;
* `leaves_prune`: what is left after pruning is part of what was there.
-/
import Mathlib.Data.List.Nodup
import Mathlib.Algebra.GroupWithZero.Nat

/-- A forest of nodes named in `ν` with leaves in `α`. -/
inductive Forest (ν α : Type) where
  | nil
  | leaf (a : α) (next : Forest ν α)
  | node (name : ν) (children next : Forest ν α)
  deriving DecidableEq, Repr

namespace Forest

variable {ν α : Type}

/-- A node, with the names of the nodes it is in, the nearest first. -/
structure Element (ν α : Type) where
  above : List ν
  name : ν
  children : Forest ν α

/-- The leaves, in their order. -/
def leaves : Forest ν α → List α
  | nil => []
  | leaf a next => a :: next.leaves
  | node _ children next => children.leaves ++ next.leaves

/-- The nodes, each before those it has in it. -/
def elements (above : List ν) : Forest ν α → List (Element ν α)
  | nil => []
  | leaf _ next => next.elements above
  | node name children next =>
    ⟨above, name, children⟩ :: children.elements (name :: above) ++ next.elements above

/-- The leaves, each with the names of the nodes it is in, the outermost first. -/
def paths : Forest ν α → List (α × List ν)
  | nil => []
  | leaf a next => (a, []) :: next.paths
  | node name children next =>
    (children.paths.map fun p => (p.1, name :: p.2)) ++ next.paths

/-- The forest without the nodes of some names. -/
def prune (drop : ν → Bool) : Forest ν α → Forest ν α
  | nil => nil
  | leaf a next => leaf a (next.prune drop)
  | node name children next =>
    if drop name then next.prune drop
    else node name (children.prune drop) (next.prune drop)

variable {f : Forest ν α} {a : α} {path : List ν} {drop : ν → Bool}

theorem map_fst_paths (f : Forest ν α) : f.paths.map Prod.fst = f.leaves := by
  induction f with
  | nil => rfl
  | leaf a next ih => exact congrArg (a :: ·) ih
  | node name children next ihc ihn =>
    rw [paths, leaves, List.map_append, List.map_map, ← ihc, ← ihn]
    rfl

theorem mem_leaves_iff : a ∈ f.leaves ↔ ∃ path, (a, path) ∈ f.paths := by
  rw [← map_fst_paths f, List.mem_map]
  exact ⟨fun ⟨p, hp, ha⟩ => ⟨p.2, ha ▸ hp⟩, fun ⟨path, hp⟩ => ⟨(a, path), hp, rfl⟩⟩

theorem leaves_prune (f : Forest ν α) : (f.prune drop).leaves.Sublist f.leaves := by
  induction f with
  | nil => exact List.Sublist.refl _
  | leaf a next ih => exact ih.cons_cons a
  | node name children next ihc ihn =>
    rw [prune]
    split_ifs
    · exact ihn.trans (List.sublist_append_right _ _)
    · exact ihc.append ihn

/-! ## Weights -/

/-- The sum of a weight along a path. -/
def sumAlong (v : List ν → ν → List ν → Nat) : List ν → List ν → Nat
  | _, [] => 0
  | above, name :: below => v above name below + sumAlong v (name :: above) below

variable {w : Element ν α → Nat} {above : List ν}

/-- A leaf that is nowhere counts nowhere. -/
theorem sum_elements_of_not_mem (hout : ∀ e, a ∉ e.children.leaves → w e = 0)
    (ha : a ∉ f.leaves) : ((f.elements above).map w).sum = 0 := by
  induction f generalizing above with
  | nil => rfl
  | leaf b next ih => exact ih fun h => ha (List.mem_cons_of_mem b h)
  | node name children next ihc ihn =>
    have hchildren : a ∉ children.leaves := fun h => ha (List.mem_append_left _ h)
    have hnext : a ∉ next.leaves := fun h => ha (List.mem_append_right _ h)
    rw [elements, List.map_append, List.sum_append, List.map_cons, List.sum_cons, ihn hnext,
      ihc hchildren, hout _ hchildren]

/-- **The weights of the nodes around a leaf are all that counts.** -/
theorem sum_elements {v : List ν → ν → List ν → Nat}
    (hout : ∀ e, a ∉ e.children.leaves → w e = 0)
    (hin : ∀ e path, e.children.leaves.Nodup → (a, path) ∈ e.children.paths →
      w e = v e.above e.name path)
    (hnodup : f.leaves.Nodup) (h : (a, path) ∈ f.paths) :
    ((f.elements above).map w).sum = sumAlong v above path := by
  induction f generalizing above path with
  | nil => cases h
  | leaf b next ih =>
    obtain ⟨hb, hnext⟩ := List.nodup_cons.mp hnodup
    rcases List.mem_cons.mp h with heq | h
    · obtain ⟨rfl, rfl⟩ := Prod.mk.inj heq
      exact sum_elements_of_not_mem (f := next) hout hb
    · exact ih hnext h
  | node name children next ihc ihn =>
    obtain ⟨hchildren, hnext, hdisjoint⟩ := List.nodup_append'.mp hnodup
    rw [elements, List.map_append, List.sum_append, List.map_cons, List.sum_cons]
    rcases List.mem_append.mp h with h | h
    · obtain ⟨p, hp, heq⟩ := List.mem_map.mp h
      obtain ⟨rfl, rfl⟩ := Prod.mk.inj heq
      have hleaf : p.1 ∉ next.leaves := hdisjoint (mem_leaves_iff.mpr ⟨p.2, hp⟩)
      rw [sum_elements_of_not_mem hout hleaf, ihc hchildren hp,
        hin ⟨above, name, children⟩ p.2 hchildren hp]
      rfl
    · have hleaf : a ∉ children.leaves := fun hmem =>
        hdisjoint hmem (mem_leaves_iff.mpr ⟨path, h⟩)
      rw [sum_elements_of_not_mem hout hleaf, hout _ hleaf, ihn hnext h]
      omega

end Forest
