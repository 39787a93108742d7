/-
# Cutting a stream into frames

A stream of elements is read in pieces, and every frame in it ends with a separator.  The reader
keeps a buffer: it cuts complete frames off its front for as long as it finds the separator, and
leaves the rest for the next piece.

* `cut_append`: reading in two pieces is reading at once;
* `cut_frames`: a stream of frames is cut into these frames, if the separator is found first at
  their ends.
-/
import Mathlib.Data.List.Basic

namespace Frames

variable {α : Type*} [DecidableEq α]

/-! ## 1. The first occurrence -/

/-- Where the pattern occurs first. -/
def indexOf (pat : List α) : List α → Option Nat
  | [] => if pat.isPrefixOf [] then some 0 else none
  | c :: t => if pat.isPrefixOf (c :: t) then some 0 else (indexOf pat t).map (· + 1)

variable {pat sep s : List α} {k : Nat}

/-- An occurrence lies in the list. -/
theorem indexOf_le (h : indexOf pat s = some k) : k + pat.length ≤ s.length := by
  induction s generalizing k with
  | nil =>
    unfold indexOf at h
    split at h
    · rename_i hpre
      obtain rfl := Option.some.inj h
      have hle := (List.isPrefixOf_iff_prefix.mp hpre).length_le
      omega
    · exact nomatch h
  | cons c t ih =>
    unfold indexOf at h
    split at h
    · rename_i hpre
      obtain rfl := Option.some.inj h
      have hle := (List.isPrefixOf_iff_prefix.mp hpre).length_le
      omega
    · obtain ⟨j, hj, rfl⟩ := Option.map_eq_some_iff.mp h
      have hle := ih hj
      simp only [List.length_cons]
      omega

/-- The first occurrence stays the first, whatever follows. -/
theorem indexOf_append (h : indexOf pat s = some k) (x : List α) :
    indexOf pat (s ++ x) = some k := by
  induction s generalizing k with
  | nil =>
    unfold indexOf at h
    split at h
    · rename_i hpre
      obtain rfl := Option.some.inj h
      obtain rfl := List.prefix_nil.mp (List.isPrefixOf_iff_prefix.mp hpre)
      cases x <;> rfl
    · exact nomatch h
  | cons c t ih =>
    unfold indexOf at h
    split at h
    · rename_i hpre
      obtain rfl := Option.some.inj h
      have hlonger : pat.isPrefixOf (c :: t ++ x) = true :=
        List.isPrefixOf_iff_prefix.mpr
          ((List.isPrefixOf_iff_prefix.mp hpre).trans (List.prefix_append _ _))
      simp only [List.cons_append] at hlonger ⊢
      simp only [indexOf, hlonger, if_true]
    · rename_i hpre
      obtain ⟨j, hj, rfl⟩ := Option.map_eq_some_iff.mp h
      have hshort : ¬ pat.isPrefixOf (c :: (t ++ x)) = true := by
        intro hlong
        have hle : pat.length ≤ (c :: t).length := by
          have := indexOf_le hj
          simp only [List.length_cons]
          omega
        exact hpre (List.isPrefixOf_iff_prefix.mpr (List.prefix_of_prefix_length_le
          (List.isPrefixOf_iff_prefix.mp hlong) (List.prefix_append (c :: t) x) hle))
      simp only [List.cons_append, indexOf, hshort, ih hj, Option.map_some]
      rfl

/-! ## 2. Frames -/

/-- The frames in the buffer, each without its separator, and what is left. -/
def cut (sep : List α) (hsep : sep ≠ []) (buffer : List α) : List (List α) × List α :=
  match h : indexOf sep buffer with
  | none => ([], buffer)
  | some k =>
    have : buffer.length - (k + sep.length) < buffer.length := by
      have hle := indexOf_le h
      have hpos := List.length_pos_iff.mpr hsep
      omega
    let r := cut sep hsep (buffer.drop (k + sep.length))
    (buffer.take k :: r.1, r.2)
termination_by buffer.length
decreasing_by rwa [List.length_drop]

variable {hsep : sep ≠ []}

theorem cut_none (h : indexOf sep s = none) : cut sep hsep s = ([], s) := by
  rw [cut]
  split
  · rfl
  · rename_i k hk
    rw [h] at hk
    exact nomatch hk

theorem cut_some (h : indexOf sep s = some k) :
    cut sep hsep s = (s.take k :: (cut sep hsep (s.drop (k + sep.length))).1,
      (cut sep hsep (s.drop (k + sep.length))).2) := by
  rw [cut]
  split
  · rename_i hk
    rw [h] at hk
    exact nomatch hk
  · rename_i k' hk
    obtain rfl : k' = k := Option.some.inj (hk.symm.trans h)
    rfl

/-- What is left has no complete frame. -/
theorem indexOf_rest (s : List α) : indexOf sep (cut sep hsep s).2 = none := by
  induction hn : s.length using Nat.strongRecOn generalizing s with
  | ind n ih =>
    cases hk : indexOf sep s with
    | none => rw [cut_none hk, hk]
    | some k =>
      have hle := indexOf_le hk
      have hpos := List.length_pos_iff.mpr hsep
      rw [cut_some hk]
      exact ih _ (by rw [List.length_drop]; omega) _ rfl

/-- **Reading in two pieces is reading at once.** -/
theorem cut_append (s x : List α) :
    cut sep hsep (s ++ x) = ((cut sep hsep s).1 ++ (cut sep hsep ((cut sep hsep s).2 ++ x)).1,
      (cut sep hsep ((cut sep hsep s).2 ++ x)).2) := by
  induction hn : s.length using Nat.strongRecOn generalizing s with
  | ind n ih =>
    cases hk : indexOf sep s with
    | none => rw [cut_none hk, List.nil_append]
    | some k =>
      have hle := indexOf_le hk
      have hpos := List.length_pos_iff.mpr hsep
      have htake : (s ++ x).take k = s.take k := List.take_append_of_le_length (by omega)
      have hdrop : (s ++ x).drop (k + sep.length) = s.drop (k + sep.length) ++ x :=
        List.drop_append_of_le_length hle
      rw [cut_some (indexOf_append hk x), cut_some hk, htake, hdrop,
        ih _ (by rw [List.length_drop]; omega) _ rfl]
      rfl

/-- **A stream of frames is cut into its frames.** -/
theorem cut_frames (hsep : sep ≠ []) (frames : List (List α))
    (hframes : ∀ f ∈ frames, indexOf sep (f ++ sep) = some f.length) :
    cut sep hsep (frames.flatMap fun f => f ++ sep) = (frames, []) := by
  induction frames with
  | nil =>
    refine cut_none ?_
    have hpre : ¬ sep.isPrefixOf [] = true := by
      rw [List.isPrefixOf_iff_prefix, List.prefix_nil]
      exact hsep
    simp only [List.flatMap_nil, indexOf, hpre]
    rfl
  | cons f frames ih =>
    have hf := indexOf_append (hframes f List.mem_cons_self) (frames.flatMap fun f => f ++ sep)
    have hdrop : (f ++ sep ++ frames.flatMap fun f => f ++ sep).drop (f.length + sep.length)
        = frames.flatMap fun f => f ++ sep :=
      List.drop_left' (List.length_append ..)
    rw [List.flatMap_cons, cut_some hf, hdrop, ih fun g hg => hframes g (List.mem_cons_of_mem f hg),
      List.append_assoc, List.take_left']
    rfl

end Frames
