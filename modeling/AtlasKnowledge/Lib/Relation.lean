/-
# Ordered, numbered and joined rows

What a query does to rows besides selecting them: `ORDER BY`, where the way ties are broken is
part of the order; `row_number()`; `LIMIT`; and the full outer join.

* `mem_sort`, `mem_number`, `sublist_of_limit`, `mem_fullJoin`: no step adds a row;
* `forall_mem_mapM`: what a column computed row by row holds;
* `fullJoin_cases`, `map_key_fullJoin`: which rows a full outer join has, and each key once;
* `sort_eq`, `le_of_not_mem_take`: an order without ties is the only one, and what a limit cuts off
  comes behind what it lets through.
-/
import Mathlib.Data.List.Sort
import Mathlib.Order.Defs.LinearOrder

universe u

variable {ρ κ ε : Type*} {α β : Type u}

/-- `ORDER BY key`, with some way to break ties. -/
structure OrderBy (ρ : Type*) {κ : Type*} [LinearOrder κ] (key : ρ → κ) where
  sort : List ρ → List ρ
  perm : ∀ rows, (sort rows).Perm rows
  sorted : ∀ rows, (sort rows).Pairwise fun a b => key a ≤ key b

/-- The order in which ties stay as they are. -/
def OrderBy.stable [LinearOrder κ] (key : ρ → κ) : OrderBy ρ key where
  sort rows := rows.insertionSort fun a b => key a ≤ key b
  perm rows := List.perm_insertionSort _ rows
  sorted rows := by
    have : Std.Total fun a b : ρ => key a ≤ key b := ⟨fun a b => le_total (key a) (key b)⟩
    have : IsTrans ρ fun a b => key a ≤ key b := ⟨fun a b c hab hbc => le_trans hab hbc⟩
    exact List.pairwise_insertionSort _ rows

namespace Relation

/-! ## 1. The steps -/

/-- `row_number() over (...)`, of rows that stand in the order of the window. -/
def number (rows : List ρ) : List (ρ × Nat) := rows.zipIdx 1

/-- `LIMIT n` of rows that are computed only if the limit lets one through; a negative limit is
an error. -/
def limit (negative : ε) (n : Int) (rows : Except ε (List ρ)) : Except ε (List ρ) :=
  if n < 0 then .error negative
  else if n = 0 then .ok []
  else rows.map fun rows => rows.take n.toNat

/-- A row of a full outer join: a row of one side without a partner, or a pair. -/
inductive Joined (α β : Type*) where
  | left (a : α)
  | pair (a : α) (b : β)
  | right (b : β)
  deriving DecidableEq, Repr

def Joined.fst? : Joined α β → Option α
  | .left a => some a
  | .pair a _ => some a
  | .right _ => none

def Joined.snd? : Joined α β → Option β
  | .left _ => none
  | .pair _ b => some b
  | .right b => some b

/-- `coalesce(l.key, r.key)`. -/
def Joined.key (key₁ : α → κ) (key₂ : β → κ) : Joined α β → κ
  | .left a => key₁ a
  | .pair a _ => key₁ a
  | .right b => key₂ b

/-- `l FULL OUTER JOIN r USING (key)`. -/
def fullJoin [DecidableEq κ] (key₁ : α → κ) (key₂ : β → κ) (l : List α) (r : List β) :
    List (Joined α β) :=
  (l.flatMap fun a =>
    match r.filter fun b => key₂ b = key₁ a with
    | [] => [.left a]
    | partners => partners.map (.pair a)) ++
  (r.filter fun b => l.all fun a => key₁ a ≠ key₂ b).map .right

/-! ## 2. Results -/

theorem bind_ok {x : Except ε α} {f : α → Except ε β} {b : β} (h : x >>= f = .ok b) :
    ∃ a, x = .ok a ∧ f a = .ok b := by
  cases x with
  | error e => exact nomatch h
  | ok a => exact ⟨a, rfl, h⟩

/-- Two continuations that agree on the result. -/
theorem bind_congr_of_ok {x : Except ε α} {f g : α → Except ε β}
    (h : ∀ a, x = .ok a → f a = g a) : x >>= f = x >>= g := by
  cases x with
  | error e => rfl
  | ok a => exact h a rfl

theorem map_ok {x : Except ε α} {f : α → β} {b : β} (h : x.map f = .ok b) :
    ∃ a, x = .ok a ∧ f a = b := by
  cases x with
  | error e => exact nomatch h
  | ok a => exact ⟨a, rfl, Except.ok.inj h⟩

/-! ## 3. No step adds a row -/

theorem mem_sort [LinearOrder κ] {key : ρ → κ} (order : OrderBy ρ key) {rows : List ρ} {x : ρ} :
    x ∈ order.sort rows ↔ x ∈ rows := (order.perm rows).mem_iff

theorem mem_number {rows : List ρ} {x : ρ × Nat} (h : x ∈ number rows) : x.1 ∈ rows :=
  List.fst_mem_of_mem_zipIdx h

theorem sublist_of_limit {negative : ε} {n : Int} {rows : Except ε (List ρ)} {out : List ρ}
    (h : limit negative n rows = .ok out) :
    out = [] ∨ ∃ all, rows = .ok all ∧ out.Sublist all := by
  unfold limit at h
  split_ifs at h with hneg hzero
  · exact .inl (Except.ok.inj h).symm
  · obtain ⟨all, hall, rfl⟩ := map_ok h
    exact .inr ⟨all, hall, List.take_sublist _ _⟩

/-- What comes through a limit was there before it. -/
theorem mem_of_limit {negative : ε} {n : Int} {rows : Except ε (List ρ)} {out : List ρ} {x : ρ}
    (h : limit negative n rows = .ok out) (hx : x ∈ out) : ∃ all, rows = .ok all ∧ x ∈ all := by
  rcases sublist_of_limit h with rfl | ⟨all, hall, hsub⟩
  · exact absurd hx List.not_mem_nil
  · exact ⟨all, hall, hsub.subset hx⟩

/-- **A row of a full outer join** has a row of either side with its key. -/
theorem mem_fullJoin [DecidableEq κ] {key₁ : α → κ} {key₂ : β → κ} {l : List α} {r : List β}
    {x : Joined α β} (h : x ∈ fullJoin key₁ key₂ l r) :
    (∃ a ∈ l, key₁ a = x.key key₁ key₂) ∨ ∃ b ∈ r, key₂ b = x.key key₁ key₂ := by
  rcases List.mem_append.mp h with h | h
  · obtain ⟨a, ha, hx⟩ := List.mem_flatMap.mp h
    refine .inl ⟨a, ha, ?_⟩
    split at hx
    · obtain rfl := List.mem_singleton.mp hx
      rfl
    · obtain ⟨b, -, rfl⟩ := List.mem_map.mp hx
      rfl
  · obtain ⟨b, hb, rfl⟩ := List.mem_map.mp h
    exact .inr ⟨b, (List.mem_filter.mp hb).1, rfl⟩

/-- A column that is computed row by row: each of its values comes from a row. -/
theorem forall_mem_mapM {f : α → Except ε β} {rows : List α} {out : List β}
    (h : rows.mapM f = .ok out) : ∀ y ∈ out, ∃ x ∈ rows, f x = .ok y := by
  induction rows generalizing out with
  | nil =>
    obtain rfl := Except.ok.inj h
    exact fun y hy => absurd hy List.not_mem_nil
  | cons x rows ih =>
    rw [List.mapM_cons] at h
    obtain ⟨y₀, hx, h⟩ := bind_ok h
    obtain ⟨ys, hrows, h⟩ := bind_ok h
    obtain rfl := Except.ok.inj h
    intro y hy
    rcases List.mem_cons.mp hy with rfl | hy
    · exact ⟨x, List.mem_cons_self, hx⟩
    · obtain ⟨x', hx', hy'⟩ := ih hrows y hy
      exact ⟨x', List.mem_cons_of_mem _ hx', hy'⟩

/-! ## 4. Which rows there are -/

theorem limit_ok {negative : ε} {n : Int} (hn : 0 ≤ n) (rows : List ρ) :
    limit negative n (.ok rows) = .ok (rows.take n.toNat) := by
  rw [limit, if_neg (not_lt.mpr hn)]
  split_ifs with hzero
  · rw [hzero]
    rfl
  · rfl

theorem map_fst_number (rows : List ρ) : (number rows).map Prod.fst = rows :=
  List.zipIdx_map_fst 1 rows

theorem map_snd_number (rows : List ρ) :
    (number rows).map Prod.snd = List.range' 1 rows.length :=
  List.zipIdx_map_snd 1 rows

theorem number_map {σ : Type*} (f : ρ → σ) (rows : List ρ) :
    number (rows.map f) = (number rows).map fun r => (f r.1, r.2) := List.zipIdx_map

/-- A row of a full outer join has no partner on the other side, or is made of partners. -/
theorem fullJoin_cases [DecidableEq κ] {key₁ : α → κ} {key₂ : β → κ} {l : List α} {r : List β}
    {x : Joined α β} (h : x ∈ fullJoin key₁ key₂ l r) :
    (∃ a ∈ l, (∀ b ∈ r, key₂ b ≠ key₁ a) ∧ x = .left a) ∨
      (∃ a ∈ l, ∃ b ∈ r, key₂ b = key₁ a ∧ x = .pair a b) ∨
        ∃ b ∈ r, (∀ a ∈ l, key₁ a ≠ key₂ b) ∧ x = .right b := by
  rcases List.mem_append.mp h with h | h
  · obtain ⟨a, ha, hx⟩ := List.mem_flatMap.mp h
    split at hx
    · rename_i hnone
      refine .inl ⟨a, ha, fun b hb hkey => ?_, List.mem_singleton.mp hx⟩
      exact List.filter_eq_nil_iff.mp hnone b hb (decide_eq_true hkey)
    · obtain ⟨b, hb, rfl⟩ := List.mem_map.mp hx
      obtain ⟨hb, hkey⟩ := List.mem_filter.mp hb
      exact .inr (.inl ⟨a, ha, b, hb, of_decide_eq_true hkey, rfl⟩)
  · obtain ⟨b, hb, rfl⟩ := List.mem_map.mp h
    obtain ⟨hb, hall⟩ := List.mem_filter.mp hb
    exact .inr (.inr ⟨b, hb, fun a ha => of_decide_eq_true (List.all_eq_true.mp hall a ha), rfl⟩)

/-- **The keys of a full outer join**, if those of the right side are different: the keys of the
left side, and behind them those of the right side that are new. -/
theorem map_key_fullJoin [DecidableEq κ] {key₁ : α → κ} {key₂ : β → κ} (l : List α) {r : List β}
    (hr : (r.map key₂).Nodup) :
    (fullJoin key₁ key₂ l r).map (Joined.key key₁ key₂)
      = l.map key₁ ++ (r.map key₂).filter fun k => k ∉ l.map key₁ := by
  have hleft (a : α) :
      (match r.filter fun b => key₂ b = key₁ a with
        | [] => [Joined.left a]
        | partners => partners.map (.pair a)).map (Joined.key key₁ key₂) = [key₁ a] := by
    have hone : (r.filter fun b => key₂ b = key₁ a).length ≤ 1 := by
      have hcount := List.nodup_iff_count_le_one.mp hr (key₁ a)
      rw [List.count, List.countP_map] at hcount
      rw [← List.countP_eq_length_filter]
      exact hcount
    split
    · rfl
    · rename_i partners hnonempty
      match hpartners : r.filter fun b => key₂ b = key₁ a with
      | [] => exact absurd hpartners hnonempty
      | [b] => rfl
      | _ :: _ :: _ => rw [hpartners] at hone; simp at hone
  have hnew (b : β) : (l.all fun a => decide (key₁ a ≠ key₂ b)) = decide (key₂ b ∉ l.map key₁) := by
    rw [Bool.eq_iff_iff]
    simp
  rw [fullJoin, List.map_append, List.map_flatMap, List.map_map, List.filter_map]
  simp only [hleft, hnew]
  rw [← List.map_eq_flatMap]
  rfl

/-- **An order without ties is the only one.** -/
theorem sort_eq [LinearOrder κ] {key : ρ → κ} (order₁ order₂ : OrderBy ρ key) {rows : List ρ}
    (h : ∀ a ∈ rows, ∀ b ∈ rows, key a = key b → a = b) :
    order₁.sort rows = order₂.sort rows := by
  refine List.Perm.eq_of_pairwise (fun a b ha hb hab hba => ?_) (order₁.sorted rows)
    (order₂.sorted rows) ((order₁.perm rows).trans (order₂.perm rows).symm)
  exact h a ((mem_sort _).mp ha) b ((mem_sort _).mp hb) (le_antisymm hab hba)

/-- What a limit cuts off comes behind what it lets through. -/
theorem le_of_not_mem_take [LinearOrder κ] {key : ρ → κ} (order : OrderBy ρ key) {rows : List ρ}
    {n : Nat} {x y : ρ} (hx : x ∈ rows) (hout : x ∉ (order.sort rows).take n)
    (hy : y ∈ (order.sort rows).take n) : key y ≤ key x := by
  have hsorted := order.sorted rows
  rw [← List.take_append_drop n (order.sort rows)] at hsorted
  have hmem : x ∈ (order.sort rows).take n ++ (order.sort rows).drop n := by
    rw [List.take_append_drop]
    exact (mem_sort _).mpr hx
  rcases List.mem_append.mp hmem with htake | hdrop
  · exact absurd htake hout
  · exact (List.pairwise_append.mp hsorted).2.2 y hy x hdrop

end Relation
