/-
# Lists and steps that can fail

`List.mapM` in `Except`, and a stable sort by a comparison that can fail.

* `mapM_eq_ok`, `mapM_eq_error`: a result is made of the results, an error is the first one;
* `sortedBy_perm`: what is sorted is a permutation;
* `sortedBy_of_rank`: keys that compare as integers do are put in the order of these;
* `ranks_eq_range`: if they are `n` and have each rank below `n`, each is where its rank says.
-/
import Mathlib.Data.List.Forall2
import Mathlib.Data.List.Nodup
import Mathlib.Data.List.Perm.Subperm

namespace Fallible

variable {ε α β κ : Type}

/-! ## 1. Binds -/

theorem bind_eq_ok {x : Except ε α} {f : α → Except ε β} {b : β} :
    (x >>= f) = .ok b ↔ ∃ a, x = .ok a ∧ f a = .ok b := by
  cases x with
  | error e => exact ⟨nofun, nofun⟩
  | ok a => exact ⟨fun h => ⟨a, rfl, h⟩, fun ⟨_, ha, hb⟩ => (Except.ok.inj ha) ▸ hb⟩

theorem bind_eq_error {x : Except ε α} {f : α → Except ε β} {e : ε} :
    (x >>= f) = .error e ↔ x = .error e ∨ ∃ a, x = .ok a ∧ f a = .error e := by
  cases x with
  | error e' =>
    refine ⟨fun h => .inl (congrArg Except.error (Except.error.inj h)), ?_⟩
    rintro (h | ⟨a, ha, _⟩)
    · exact congrArg Except.error (Except.error.inj h)
    · cases ha
  | ok a =>
    refine ⟨fun h => .inr ⟨a, rfl, h⟩, ?_⟩
    rintro (h | ⟨a', ha, hb⟩)
    · cases h
    · exact (Except.ok.inj ha) ▸ hb

theorem elim_eq_error {x : Option α} {e e' : ε}
    (h : x.elim (.error e') .ok = (.error e : Except ε α)) : e = e' := by
  cases x with
  | none => exact (Except.error.inj h).symm
  | some a => cases h

theorem elim_eq_ok {x : Option α} {a : α} {e : ε} :
    x.elim (.error e) .ok = (.ok a : Except ε α) ↔ x = some a := by
  cases x with
  | none => exact ⟨nofun, nofun⟩
  | some b =>
    exact ⟨fun h => congrArg some (Except.ok.inj h), fun h => congrArg _ (Option.some.inj h)⟩

/-! ## 2. One step for each item -/

variable {f : α → Except ε β} {xs : List α} {ys : List β}

theorem mapM_eq_ok : xs.mapM f = .ok ys ↔ List.Forall₂ (fun x y => f x = .ok y) xs ys := by
  induction xs generalizing ys with
  | nil =>
    rw [List.mapM_nil, List.forall₂_nil_left_iff]
    exact ⟨fun h => (Except.ok.inj h).symm, fun h => congrArg Except.ok h.symm⟩
  | cons x xs ih =>
    rw [List.mapM_cons, bind_eq_ok, List.forall₂_cons_left_iff]
    constructor
    · rintro ⟨y, hy, h⟩
      obtain ⟨rest, hrest, h⟩ := bind_eq_ok.mp h
      exact ⟨y, rest, hy, ih.mp hrest, (Except.ok.inj h).symm⟩
    · rintro ⟨y, rest, hy, hrest, rfl⟩
      exact ⟨y, hy, bind_eq_ok.mpr ⟨rest, ih.mpr hrest, rfl⟩⟩

/-- Steps that all return: what is read off the results can be read off the items. -/
theorem exists_mapM {γ : Type} {g : β → γ} {h : α → γ}
    (hf : ∀ x ∈ xs, ∃ y, f x = .ok y ∧ g y = h x) :
    ∃ ys, xs.mapM f = .ok ys ∧ ys.map g = xs.map h := by
  induction xs with
  | nil => exact ⟨[], rfl, rfl⟩
  | cons x xs ih =>
    obtain ⟨hx, hxs⟩ := List.forall_mem_cons.mp hf
    obtain ⟨y, hy, hread⟩ := hx
    obtain ⟨ys, hys, hreads⟩ := ih hxs
    refine ⟨y :: ys, mapM_eq_ok.mpr (.cons hy (mapM_eq_ok.mp hys)), ?_⟩
    rw [List.map_cons, List.map_cons, hread, hreads]

theorem mapM_ok {g : α → β} (hf : ∀ x ∈ xs, f x = .ok (g x)) : xs.mapM f = .ok (xs.map g) := by
  obtain ⟨ys, hys, hmap⟩ : ∃ ys, xs.mapM f = .ok ys ∧ ys.map id = xs.map g :=
    exists_mapM fun x hx => ⟨g x, hf x hx, rfl⟩
  rw [hys, ← hmap, List.map_id]

/-- An error is that of the first item that fails. -/
theorem mapM_eq_error {e : ε} :
    xs.mapM f = .error e ↔
      ∃ pre x post, xs = pre ++ x :: post ∧ (∀ y ∈ pre, (f y).isOk) ∧ f x = .error e := by
  induction xs with
  | nil => simp [pure, Except.pure]
  | cons x xs ih =>
    rw [List.mapM_cons, bind_eq_error]
    constructor
    · rintro (hx | ⟨y, hy, h⟩)
      · exact ⟨[], x, xs, rfl, nofun, hx⟩
      · rcases bind_eq_error.mp h with hrest | ⟨rest, hrest, h⟩
        · obtain ⟨pre, z, post, rfl, hpre, hz⟩ := ih.mp hrest
          exact ⟨x :: pre, z, post, rfl,
            List.forall_mem_cons.mpr ⟨by rw [hy]; rfl, hpre⟩, hz⟩
        · cases h
    · rintro ⟨pre, z, post, hxs, hpre, hz⟩
      cases pre with
      | nil =>
        obtain ⟨rfl, rfl⟩ := List.cons.inj hxs
        exact .inl hz
      | cons y pre =>
        obtain ⟨rfl, rfl⟩ := List.cons.inj hxs
        obtain ⟨hy, hpre⟩ := List.forall_mem_cons.mp hpre
        obtain ⟨b, hb⟩ : ∃ b, f x = .ok b := by
          cases hx : f x with
          | ok b => exact ⟨b, rfl⟩
          | error e' => rw [hx] at hy; cases hy
        exact .inr ⟨b, hb, bind_eq_error.mpr (.inl (ih.mpr ⟨pre, z, post, rfl, hpre, hz⟩))⟩

theorem exists_of_mem_left {R : α → β → Prop} (h : List.Forall₂ R xs ys) {x : α} (hx : x ∈ xs) :
    ∃ y ∈ ys, R x y := by
  obtain ⟨⟨i, hi⟩, rfl⟩ := List.mem_iff_get.mp hx
  have hi' : i < ys.length := h.length_eq ▸ hi
  exact ⟨ys.get ⟨i, hi'⟩, List.get_mem _ _, h.get hi hi'⟩

theorem exists_of_mem_right {R : α → β → Prop} (h : List.Forall₂ R xs ys) {y : β} (hy : y ∈ ys) :
    ∃ x ∈ xs, R x y := by
  obtain ⟨⟨i, hi⟩, rfl⟩ := List.mem_iff_get.mp hy
  have hi' : i < xs.length := h.length_eq ▸ hi
  exact ⟨xs.get ⟨i, hi'⟩, List.get_mem _ _, h.get hi' hi⟩

/-! ## 3. Sorting -/

/-- The item behind those that are not greater. -/
def insertBy (lt : κ → κ → Except ε Bool) (x : κ × α) : List (κ × α) → Except ε (List (κ × α))
  | [] => .ok [x]
  | y :: ys => do
    if ← lt x.1 y.1 then return x :: y :: ys
    else return y :: (← insertBy lt x ys)

/-- A stable sort that asks `lt` alone. -/
def sortedBy (lt : κ → κ → Except ε Bool) (xs : List (κ × α)) : Except ε (List (κ × α)) :=
  xs.foldlM (fun done x => insertBy lt x done) []

variable {lt : κ → κ → Except ε Bool} {x : κ × α} {rows sorted : List (κ × α)}

theorem insertBy_perm (h : insertBy lt x rows = .ok sorted) : sorted.Perm (x :: rows) := by
  induction rows generalizing sorted with
  | nil => rw [← Except.ok.inj h]
  | cons y rows ih =>
    obtain ⟨less, _, h⟩ := bind_eq_ok.mp h
    cases less with
    | true => rw [← Except.ok.inj h]
    | false =>
      obtain ⟨rest, hrest, h⟩ := bind_eq_ok.mp h
      rw [← Except.ok.inj h]
      exact ((ih hrest).cons y).trans (.swap x y rows)

theorem foldlM_insertBy_perm {done : List (κ × α)}
    (h : rows.foldlM (fun done x => insertBy lt x done) done = .ok sorted) :
    sorted.Perm (done ++ rows) := by
  induction rows generalizing done with
  | nil =>
    rw [← Except.ok.inj h, List.append_nil]
  | cons x rows ih =>
    rw [List.foldlM_cons] at h
    obtain ⟨next, hnext, h⟩ := bind_eq_ok.mp h
    exact (ih h).trans (((insertBy_perm hnext).append_right rows).trans
      List.perm_middle.symm)

theorem sortedBy_perm (h : sortedBy lt rows = .ok sorted) : sorted.Perm rows :=
  foldlM_insertBy_perm h

section Rank

variable {rank : κ → Option Int}
  (hlt : ∀ k k' a b, rank k = some a → rank k' = some b → lt k k' = .ok (decide (a < b)))

/-- In the order of the ranks. -/
def Ranked (rank : κ → Option Int) (rows : List (κ × α)) : Prop :=
  rows.Pairwise fun x y => ∀ a b, rank x.1 = some a → rank y.1 = some b → a ≤ b

include hlt in
theorem insertBy_of_rank (hx : (rank x.1).isSome) (hrows : ∀ y ∈ rows, (rank y.1).isSome)
    (hranked : Ranked rank rows) :
    ∃ sorted, insertBy lt x rows = .ok sorted ∧ Ranked rank sorted := by
  obtain ⟨a, ha⟩ := Option.isSome_iff_exists.mp hx
  induction rows with
  | nil => exact ⟨[x], rfl, List.pairwise_singleton _ _⟩
  | cons y rows ih =>
    obtain ⟨hy, hrows⟩ := List.forall_mem_cons.mp hrows
    obtain ⟨b, hb⟩ := Option.isSome_iff_exists.mp hy
    obtain ⟨hfirst, hrest⟩ := List.pairwise_cons.mp hranked
    by_cases hless : a < b
    · refine ⟨x :: y :: rows, ?_, List.pairwise_cons.mpr ⟨?_, hranked⟩⟩
      · rw [insertBy, hlt _ _ a b ha hb, decide_eq_true hless]
        rfl
      · intro z hz a' c ha' hc
        obtain rfl : a = a' := Option.some.inj (ha.symm.trans ha')
        rcases List.mem_cons.mp hz with rfl | hz
        · have : b = c := Option.some.inj (hb.symm.trans hc)
          omega
        · have := hfirst z hz b c hb hc
          omega
    · obtain ⟨sorted, hsorted, hinsert⟩ := ih hrows hrest
      refine ⟨y :: sorted, ?_, List.pairwise_cons.mpr ⟨?_, hinsert⟩⟩
      · rw [insertBy, hlt _ _ a b ha hb, decide_eq_false hless, hsorted]
        rfl
      · intro z hz b' c hb' hc
        obtain rfl : b = b' := Option.some.inj (hb.symm.trans hb')
        rcases List.mem_cons.mp ((insertBy_perm hsorted).subset hz) with rfl | hz
        · have : a = c := Option.some.inj (ha.symm.trans hc)
          omega
        · exact hfirst z hz b c hb hc

include hlt in
/-- **Keys with a rank are sorted by it.** -/
theorem sortedBy_of_rank (hrows : ∀ x ∈ rows, (rank x.1).isSome) :
    ∃ sorted, sortedBy lt rows = .ok sorted ∧ Ranked rank sorted := by
  suffices h : ∀ done : List (κ × α), (∀ x ∈ done, (rank x.1).isSome) → Ranked rank done →
      ∃ sorted, rows.foldlM (fun done x => insertBy lt x done) done = .ok sorted ∧
        Ranked rank sorted from
    h [] nofun List.Pairwise.nil
  induction rows with
  | nil => exact fun done _ hranked => ⟨done, rfl, hranked⟩
  | cons x rows ih =>
    intro done hdone hranked
    obtain ⟨hx, hrows⟩ := List.forall_mem_cons.mp hrows
    obtain ⟨next, hnext, hranked'⟩ := insertBy_of_rank hlt hx hdone hranked
    have hnext' : ∀ y ∈ next, (rank y.1).isSome := fun y hy =>
      (List.mem_cons.mp ((insertBy_perm hnext).subset hy)).elim (fun h => h ▸ hx) (hdone y)
    obtain ⟨sorted, hsorted, hsorted'⟩ := ih hrows next hnext' hranked'
    refine ⟨sorted, ?_, hsorted'⟩
    rw [List.foldlM_cons, hnext]
    exact hsorted

/-- `n` items that have each of the ranks below `n` have each once. -/
theorem ranks_perm {n : Nat} (hlength : rows.length = n)
    (hall : ∀ j < n, ∃ x ∈ rows, rank x.1 = some (j : Int)) :
    (rows.map fun x => rank x.1).Perm ((List.range n).map fun j : Nat => some (j : Int)) := by
  have hnodup : ((List.range n).map fun j : Nat => some (j : Int)).Nodup :=
    List.Nodup.map (fun i j h => Int.ofNat.inj (Option.some.inj h)) List.nodup_range
  have hsubset : (List.range n).map (fun j : Nat => some (j : Int)) ⊆ rows.map fun x =>
    rank x.1 := by
    intro r hr
    obtain ⟨j, hj, rfl⟩ := List.mem_map.mp hr
    obtain ⟨x, hx, hrank⟩ := hall j (List.mem_range.mp hj)
    exact List.mem_map.mpr ⟨x, hx, hrank⟩
  refine ((hnodup.subperm hsubset).perm_of_length_le ?_).symm
  simp [hlength]

/-- In order, the item at `j` has the rank `j`. -/
theorem ranks_eq_range {n : Nat} (hlength : rows.length = n)
    (hall : ∀ j < n, ∃ x ∈ rows, rank x.1 = some (j : Int)) (hranked : Ranked rank rows) :
    (rows.map fun x => rank x.1) = (List.range n).map fun j : Nat => some (j : Int) := by
  have hperm := ranks_perm hlength hall
  let le : Option Int → Option Int → Prop := fun r r' => ∀ a b, r = some a → r' = some b → a ≤ b
  have hranks : (rows.map fun x => rank x.1).Pairwise le := List.pairwise_map.mpr hranked
  have hrange : ((List.range n).map fun j : Nat => some (j : Int)).Pairwise le := by
    refine List.pairwise_map.mpr (List.pairwise_lt_range.imp ?_)
    intro i j hij a b ha hb
    obtain rfl := Option.some.inj ha
    obtain rfl := Option.some.inj hb
    omega
  refine hperm.eq_of_pairwise ?_ hranks hrange
  intro r r' hr hr' hle hge
  obtain ⟨i, _, rfl⟩ := List.mem_map.mp (hperm.subset hr)
  obtain ⟨j, _, rfl⟩ := List.mem_map.mp hr'
  have hij := hle i j rfl rfl
  have hji := hge j i rfl rfl
  exact congrArg some (by omega)

end Rank

end Fallible
