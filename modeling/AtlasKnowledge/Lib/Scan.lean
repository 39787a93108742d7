/-
# Splitting and replacing at the matches of a pattern

A pattern is given by what it matches at the head of a list: `m s` is the length of the match
there, and `0` says that there is none (a pattern that matches the empty list is not meant).
`split` and `sub` scan from the left and do not look for matches inside a match, as `re.split`
and `re.sub` do.

* `Splits`: what the result of a split is, as a relation, with `split_splits`;
* `sub_eq_self`: nothing to replace;
* `literal`: the pattern of one fixed list, with `replace`.
-/
import Mathlib.Data.List.Basic

namespace Scan

variable {α : Type*}

/-! ## 1. The two scans -/

/-- The first part and the others; the number counts the rest of the current match. -/
def splitFrom (m : List α → Nat) : Nat → List α → List α × List (List α)
  | _, [] => ([], [])
  | k + 1, _ :: t => splitFrom m k t
  | 0, c :: t =>
    match m (c :: t) with
    | 0 => let r := splitFrom m 0 t; (c :: r.1, r.2)
    | k + 1 => let r := splitFrom m k t; ([], r.1 :: r.2)

/-- `re.split`: the parts between the matches. -/
def split (m : List α → Nat) (s : List α) : List (List α) :=
  let r := splitFrom m 0 s; r.1 :: r.2

def subFrom (m : List α → Nat) (new : List α) : Nat → List α → List α
  | _, [] => []
  | k + 1, _ :: t => subFrom m new k t
  | 0, c :: t =>
    match m (c :: t) with
    | 0 => c :: subFrom m new 0 t
    | k + 1 => new ++ subFrom m new k t

/-- `re.sub` with a fixed replacement. -/
def sub (m : List α → Nat) (new s : List α) : List α := subFrom m new 0 s

/-! ## 2. What a split is -/

/-- No match starts inside `p` when `rest` follows. -/
def Clean (m : List α → Nat) (p rest : List α) : Prop :=
  ∀ a c, p = a ++ c → c ≠ [] → m (c ++ rest) = 0

/-- The parts of a list: a part in which no match starts, a match, and the parts of the rest. -/
inductive Splits (m : List α → Nat) : List α → List (List α) → Prop where
  | last {p : List α} (clean : Clean m p []) : Splits m p [p]
  | cons {p sep rest : List α} {parts : List (List α)} (clean : Clean m p (sep ++ rest))
      (nonempty : sep ≠ []) (hit : m (sep ++ rest) = sep.length) (tail : Splits m rest parts) :
      Splits m (p ++ sep ++ rest) (p :: parts)

variable {m : List α → Nat}

theorem Clean.nil (rest : List α) : Clean m [] rest := by
  intro a c hac hc
  exact absurd (List.append_eq_nil_iff.mp hac.symm).2 hc

/-- A clean part stays clean under a head at which nothing matches. -/
theorem Clean.cons {p rest : List α} {x : α} (h : Clean m p rest) (hx : m (x :: p ++ rest) = 0) :
    Clean m (x :: p) rest := by
  intro a c hac hc
  cases a with
  | nil =>
    obtain rfl : x :: p = c := hac
    exact hx
  | cons y a =>
    obtain ⟨-, hp⟩ := List.cons.inj hac
    exact h a c hp hc

/-- Skipping inside a match. -/
theorem splitFrom_skip (k : Nat) (s : List α) : splitFrom m k s = splitFrom m 0 (s.drop k) := by
  induction k generalizing s with
  | zero => rfl
  | succ k ih =>
    cases s with
    | nil => rfl
    | cons c t => exact ih t

/-- **A split is what `Splits` says**, for a pattern that never matches past the end. -/
theorem split_splits (hm : ∀ s : List α, m s ≤ s.length) (s : List α) : Splits m s (split m s) := by
  induction hn : s.length using Nat.strongRecOn generalizing s with
  | ind n ih =>
    cases s with
    | nil => exact .last (Clean.nil [])
    | cons c t =>
      have hlt : t.length < n := by
        rw [← hn]
        exact Nat.lt_succ_self _
      cases hmatch : m (c :: t) with
      | zero =>
        -- the head joins the first part of the tail
        have hsplit : split m (c :: t)
            = (c :: (splitFrom m 0 t).1) :: (splitFrom m 0 t).2 := by
          simp only [split, splitFrom, hmatch]
        rw [hsplit]
        have htail : Splits m t ((splitFrom m 0 t).1 :: (splitFrom m 0 t).2) := ih _ hlt t rfl
        generalize (splitFrom m 0 t).1 = p at htail
        generalize (splitFrom m 0 t).2 = ps at htail
        cases htail with
        | last clean => exact .last (clean.cons (by simpa using hmatch))
        | cons clean nonempty hit tail =>
          exact .cons (p := c :: p) (clean.cons (by simpa using hmatch)) nonempty hit tail
      | succ k =>
        have hsplit : split m (c :: t) = [] :: split m (t.drop k) := by
          simp only [split, splitFrom, hmatch]
          rw [splitFrom_skip k t]
        have hdrop : (t.drop k).length < n :=
          Nat.lt_of_le_of_lt (List.length_drop ▸ Nat.sub_le _ _) hlt
        have hrest := ih _ hdrop (t.drop k) rfl
        have hk : k ≤ t.length := by
          have hle := hm (c :: t)
          rw [hmatch] at hle
          exact Nat.le_of_succ_le_succ hle
        have happend : c :: t.take k ++ t.drop k = c :: t := by simp
        have hcons := Splits.cons (m := m) (Clean.nil (c :: t.take k ++ t.drop k))
          (List.cons_ne_nil c (t.take k)) (by rw [happend, hmatch]; simp [hk]) hrest
        rw [hsplit]
        simpa using hcons

/-- Where nothing matches, there is one part. -/
theorem split_eq_singleton {s : List α} (h : Clean m s []) : split m s = [s] := by
  have hfrom : ∀ s : List α, Clean m s [] → splitFrom m 0 s = (s, []) := by
    intro s
    induction s with
    | nil => exact fun _ => rfl
    | cons c t ih =>
      intro hs
      have hhead : m (c :: t) = 0 := by simpa using hs [] (c :: t) rfl (List.cons_ne_nil c t)
      have htail : Clean m t [] := by
        intro a u hu hne
        exact hs (c :: a) u (by rw [hu]; rfl) hne
      simp only [splitFrom, hhead, ih htail]
  simp only [split, hfrom s h]

/-! ## 3. Replacing -/

@[simp] theorem sub_nil (new : List α) : sub m new [] = [] := rfl

/-- A head at which nothing matches stays. -/
theorem sub_cons_of_zero {c : α} {t new : List α} (h : m (c :: t) = 0) :
    sub m new (c :: t) = c :: sub m new t := by
  simp only [sub, subFrom, h]

/-- A match is replaced, and the scan goes on behind it. -/
theorem sub_append_of_hit {sep t new : List α} (hne : sep ≠ []) (h : m (sep ++ t) = sep.length) :
    sub m new (sep ++ t) = new ++ sub m new t := by
  have hskip : ∀ (u : List α), subFrom m new u.length (u ++ t) = subFrom m new 0 t := by
    intro u
    induction u with
    | nil => rfl
    | cons x u ih => exact ih
  obtain ⟨c, u, rfl⟩ := List.exists_cons_of_ne_nil hne
  have hhit : m (c :: (u ++ t)) = u.length + 1 := h
  simp only [List.cons_append, sub, subFrom, hhit, hskip u]

/-- Nothing to replace. -/
theorem sub_eq_self {s new : List α} (h : Clean m s []) : sub m new s = s := by
  induction s with
  | nil => rfl
  | cons c t ih =>
    have hhead : m (c :: t) = 0 := by simpa using h [] (c :: t) rfl (List.cons_ne_nil c t)
    have htail : Clean m t [] := by
      intro a u hu hne
      exact h (c :: a) u (by rw [hu]; rfl) hne
    rw [sub_cons_of_zero hhead, ih htail]

/-! ## 4. Literals -/

variable [DecidableEq α]

/-- The pattern that matches one list. -/
def literal (old s : List α) : Nat := if old.isPrefixOf s then old.length else 0

/-- `str.replace`. -/
def replace (old new s : List α) : List α := sub (literal old) new s

theorem literal_hit (old t : List α) : literal old (old ++ t) = old.length := by
  simp [literal, List.isPrefixOf_iff_prefix]

/-- A literal with an element that the list does not have is not in it. -/
theorem replace_of_not_mem {old s : List α} {x : α} (new : List α) (hx : x ∈ old) (hs : x ∉ s) :
    replace old new s = s := by
  refine sub_eq_self ?_
  intro a c hac _
  have hno : ¬ old <+: c := by
    intro hpre
    exact hs (hac ▸ List.mem_append_right a (hpre.subset hx))
  simp only [List.append_nil, literal, List.isPrefixOf_iff_prefix, hno, if_false]

/-- Replacing one element is done element by element. -/
theorem replace_singleton (x : α) (new s : List α) :
    replace [x] new s = s.flatMap fun c => if c = x then new else [c] := by
  induction s with
  | nil => rfl
  | cons c t ih =>
    rw [List.flatMap_cons, ← ih]
    by_cases hc : c = x
    · subst hc
      rw [if_pos rfl]
      exact sub_append_of_hit (List.cons_ne_nil c []) (literal_hit [c] t)
    · rw [if_neg hc]
      refine sub_cons_of_zero ?_
      simp [literal, Ne.symm hc]

end Scan
