/-
# Keyset pagination

Rows with keys in a linear order are read from the largest key down, `limit` at a time: a page
holds the first `limit` rows below the cursor, and its own cursor is the key of its last row, if
one more row was found behind it.  The rows may be others at every fetch.

* `page_spec`: what one page holds, and what it leaves below its cursor;
* `collect_strict`, `collect_complete`, `collect_sound`, `collect_total`: the pages of a whole
  traversal are strictly decreasing, hold every row that was there at each fetch, hold nothing
  else, and come to an end once the rows no longer change;
* `collect_congr`: the same for any fetch that is told the cursor in another form.
-/
import Mathlib.Data.List.Sort
import Mathlib.Data.List.Basic

namespace Keyset

variable {ρ κ C D : Type*}

/-! ## 1. Pages -/

section Page

variable [LinearOrder κ] (key : ρ → κ)

/-- `ORDER BY key DESC`. -/
def descending (rows : List ρ) : List ρ := rows.insertionSort fun a b => key b ≤ key a

/-- `WHERE key < cursor`, if there is a cursor. -/
def before (cursor : Option κ) (rows : List ρ) : List ρ :=
  rows.filter fun r => cursor.all fun k => decide (key r < k)

/-- What is fetched for a page: one row more than it shows. -/
def fetched (limit : Nat) (cursor : Option κ) (rows : List ρ) : List ρ :=
  (descending key (before key cursor rows)).take (limit + 1)

/-- A page of what was fetched, with `mark` of its last row if a row is left over. -/
def cut (mark : ρ → C) (limit : Nat) (rows : List ρ) : List ρ × Option C :=
  let items := rows.take limit
  (items, if limit < rows.length then items.getLast?.map mark else none)

def page (limit : Nat) (cursor : Option κ) (rows : List ρ) : List ρ × Option κ :=
  cut key limit (fetched key limit cursor rows)

variable {key} {cursor : Option κ} {rows : List ρ} {r : ρ} {limit : Nat}

theorem mem_before : r ∈ before key cursor rows ↔ r ∈ rows ∧ ∀ k ∈ cursor, key r < k := by
  cases cursor <;> simp [before]

theorem mem_descending : r ∈ descending key rows ↔ r ∈ rows := List.mem_insertionSort _

theorem descending_perm : (descending key rows).Perm rows := List.perm_insertionSort _ rows

theorem descending_le : (descending key rows).Pairwise fun a b => key b ≤ key a := by
  have : Std.Total fun a b : ρ => key b ≤ key a := ⟨fun a b => le_total (key b) (key a)⟩
  have : IsTrans ρ fun a b => key b ≤ key a := ⟨fun a b c hab hbc => le_trans hbc hab⟩
  exact List.pairwise_insertionSort _ rows

/-- With distinct keys the order is strict. -/
theorem descending_strict (hkey : (rows.map key).Nodup) :
    (descending key rows).Pairwise fun a b => key b < key a := by
  have hnodup : ((descending key rows).map key).Nodup :=
    (descending_perm.map key).nodup_iff.mpr hkey
  rw [List.Nodup, List.pairwise_map] at hnodup
  exact (descending_le.and hnodup).imp fun h => lt_of_le_of_ne h.1 (Ne.symm h.2)

/-- Distinct keys determine the order. -/
theorem eq_descending {l : List ρ} (hperm : l.Perm rows)
    (hstrict : l.Pairwise fun a b => key b < key a) : l = descending key rows := by
  have hkey : (rows.map key).Nodup := by
    refine (hperm.map key).nodup_iff.mp ?_
    rw [List.Nodup, List.pairwise_map]
    exact hstrict.imp fun h => ne_of_gt h
  refine List.Perm.eq_of_pairwise ?_ hstrict (descending_strict hkey)
    (hperm.trans descending_perm.symm)
  intro a b _ _ hab hba
  exact absurd hab (lt_asymm hba)

/-- The first row is the one with the largest key. -/
theorem head_descending_iff (hkey : (rows.map key).Nodup) :
    (descending key rows).head? = some r ↔ r ∈ rows ∧ ∀ x ∈ rows, key x ≤ key r := by
  have hstrict := descending_strict hkey
  have hmem : ∀ x, x ∈ descending key rows ↔ x ∈ rows := fun x => mem_descending
  cases hrows : descending key rows with
  | nil =>
    rw [hrows] at hmem
    simp [← hmem r]
  | cons first rest =>
    rw [hrows, List.pairwise_cons] at hstrict
    simp only [hrows] at hmem
    simp only [List.head?_cons, Option.some.injEq, ← hmem]
    constructor
    · rintro rfl
      exact ⟨List.mem_cons_self, List.forall_mem_cons.mpr
        ⟨le_rfl, fun x hx => le_of_lt (hstrict.1 x hx)⟩⟩
    · rintro ⟨hr, hle⟩
      rcases List.mem_cons.mp hr with rfl | hr
      · rfl
      · exact absurd (hstrict.1 r hr) (not_lt.mpr (hle first List.mem_cons_self))

theorem nodup_before (cursor : Option κ) (hkey : (rows.map key).Nodup) :
    ((before key cursor rows).map key).Nodup := hkey.sublist (List.filter_sublist.map key)

/-- **What a page is.**  It holds rows below the cursor, in strictly decreasing order.  A page
without a cursor of its own holds all of them; the cursor of any other lies on the page, at its
end, and what the page leaves out is below it. -/
structure PageSpec (key : ρ → κ) (cursor : Option κ) (rows : List ρ) (p : List ρ × Option κ) :
    Prop where
  strict : p.1.Pairwise fun a b => key b < key a
  sound : ∀ r ∈ p.1, r ∈ before key cursor rows
  all : p.2 = none → ∀ r ∈ before key cursor rows, r ∈ p.1
  rest : ∀ k ∈ p.2, ∀ r ∈ before key cursor rows, r ∈ p.1 ∨ key r < k
  last : ∀ k ∈ p.2, (∃ r ∈ p.1, key r = k) ∧ ∀ r ∈ p.1, k ≤ key r

/-- **Every page of at least one row is such a page.** -/
theorem page_spec (cursor : Option κ) (hlimit : 1 ≤ limit) (hkey : (rows.map key).Nodup) :
    PageSpec key cursor rows (page key limit cursor rows) := by
  have hstrict := descending_strict (nodup_before cursor hkey)
  have hmem : ∀ r, r ∈ descending key (before key cursor rows) ↔ r ∈ before key cursor rows :=
    fun r => mem_descending
  unfold page fetched
  generalize descending key (before key cursor rows) = l at hstrict hmem
  have htake : ((l.take (limit + 1)).take limit) = l.take limit := by
    rw [List.take_take, Nat.min_eq_left (by omega)]
  have hsplit : ∀ r ∈ l, r ∈ l.take limit ∨ r ∈ l.drop limit := by
    intro r hr
    rw [← List.take_append_drop limit l] at hr
    exact List.mem_append.mp hr
  have hcross : ∀ a ∈ l.take limit, ∀ b ∈ l.drop limit, key b < key a := by
    rw [← List.take_append_drop limit l] at hstrict
    exact (List.pairwise_append.mp hstrict).2.2
  have hitems : (l.take limit).Pairwise fun a b => key b < key a :=
    hstrict.sublist (List.take_sublist _ _)
  simp only [cut, htake, List.length_take]
  by_cases hmore : limit < l.length
  · -- one more row was found: the cursor is the key of the last row kept
    rw [if_pos (by omega)]
    have hne : l.take limit ≠ [] := by
      intro h
      have hlen := congrArg List.length h
      rw [List.length_take, List.length_nil] at hlen
      omega
    have hlast : (l.take limit).getLast? = some ((l.take limit).getLast hne) :=
      List.getLast?_eq_some_getLast hne
    have hmemLast : (l.take limit).getLast hne ∈ l.take limit := List.getLast_mem hne
    refine ⟨hitems, fun r hr => (hmem r).mp (List.mem_of_mem_take hr), ?_, ?_, ?_⟩
    · intro h
      simp [hlast] at h
    · intro k hk r hr
      obtain rfl : key ((l.take limit).getLast hne) = k := by simpa [hlast] using hk
      exact (hsplit r ((hmem r).mpr hr)).imp_right fun h => hcross _ hmemLast r h
    · intro k hk
      obtain rfl : key ((l.take limit).getLast hne) = k := by simpa [hlast] using hk
      refine ⟨⟨_, hmemLast, rfl⟩, ?_⟩
      intro r hr
      rw [← List.dropLast_append_getLast hne] at hitems hr
      rcases List.mem_append.mp hr with hinit | hend
      · exact le_of_lt ((List.pairwise_append.mp hitems).2.2 r hinit _ (by simp))
      · rw [List.mem_singleton.mp hend]
  · rw [if_neg (by omega)]
    have hwhole : l.take limit = l := List.take_of_length_le (by omega)
    refine ⟨hitems, fun r hr => (hmem r).mp (List.mem_of_mem_take hr), ?_, nofun, nofun⟩
    intro _ r hr
    rw [hwhole]
    exact (hmem r).mpr hr

end Page

/-! ## 2. Traversals -/

/-- Following the cursors from the `n`-th fetch on, with fuel: the pages, up to the first one
without a cursor. -/
def collect (fetch : Nat → Option C → Option (List ρ × Option C)) :
    Nat → Nat → Option C → Option (List (List ρ))
  | 0, _, _ => none
  | fuel + 1, n, cursor =>
    match fetch n cursor with
    | none => none
    | some (items, none) => some [items]
    | some (items, some next) => (collect fetch fuel (n + 1) (some next)).map (items :: ·)

/-- The two fetches return the same rows, and cursors that stand for each other. -/
inductive SamePage (same : C → D → Prop) :
    Option (List ρ × Option C) → Option (List ρ × Option D) → Prop where
  | last (items : List ρ) : SamePage same (some (items, none)) (some (items, none))
  | more (items : List ρ) {c : C} {d : D} (h : same c d) :
      SamePage same (some (items, some c)) (some (items, some d))

/-- **The form of the cursor makes no difference.** -/
theorem collect_congr {same : C → D → Prop} {fetch : Nat → Option C → Option (List ρ × Option C)}
    {fetch' : Nat → Option D → Option (List ρ × Option D)}
    (hfetch : ∀ n c d, Option.Rel same c d → SamePage same (fetch n c) (fetch' n d))
    (fuel n : Nat) {c : Option C} {d : Option D} (hcd : Option.Rel same c d) :
    collect fetch fuel n c = collect fetch' fuel n d := by
  induction fuel generalizing n c d with
  | zero => rfl
  | succ fuel ih =>
    have hpage := hfetch n c d hcd
    generalize hp : fetch n c = p at hpage
    generalize hq : fetch' n d = q at hpage
    cases hpage with
    | last items => simp only [collect, hp, hq]
    | more items hsame => simp only [collect, hp, hq, ih (n + 1) (.some hsame)]

section Traversal

variable [LinearOrder κ] {key : ρ → κ} {limit : Nat} {rows : Nat → List ρ}

/-- The fetches of a traversal over rows that may be others each time. -/
def pages (key : ρ → κ) (limit : Nat) (rows : Nat → List ρ) (n : Nat) (cursor : Option κ) :
    Option (List ρ × Option κ) := some (page key limit cursor (rows n))

/-- The first page of a traversal, and what comes behind it. -/
theorem collect_cases {fuel n : Nat} {cursor : Option κ} {got : List (List ρ)}
    (h : collect (pages key limit rows) fuel n cursor = some got) :
    ∃ items, (page key limit cursor (rows n) = (items, none) ∧ got = [items]) ∨
      ∃ next fuel' rest, page key limit cursor (rows n) = (items, some next) ∧
        fuel = fuel' + 1 ∧ collect (pages key limit rows) fuel' (n + 1) (some next) = some rest ∧
        got = items :: rest := by
  cases fuel with
  | zero => exact nomatch h
  | succ fuel =>
    rw [collect, pages] at h
    rcases hpage : page key limit cursor (rows n) with ⟨items, _ | next⟩
    · rw [hpage] at h
      exact ⟨items, .inl ⟨rfl, (Option.some.inj h).symm⟩⟩
    · rw [hpage] at h
      obtain ⟨rest, hrest, rfl⟩ := Option.map_eq_some_iff.mp h
      exact ⟨items, .inr ⟨next, fuel, rest, rfl, rfl, hrest, rfl⟩⟩

variable (hlimit : 1 ≤ limit) (hkey : ∀ n, ((rows n).map key).Nodup)
include hlimit hkey

/-- **Strictly decreasing.**  All that a traversal yields lies below its cursor, in strictly
decreasing order. -/
theorem collect_strict {fuel n : Nat} {cursor : Option κ} {got : List (List ρ)}
    (h : collect (pages key limit rows) fuel n cursor = some got) :
    got.flatten.Pairwise (fun a b => key b < key a) ∧
      ∀ r ∈ got.flatten, ∀ k ∈ cursor, key r < k := by
  induction fuel generalizing n cursor got with
  | zero => exact nomatch h
  | succ fuel ih =>
    have hspec := page_spec cursor hlimit (hkey n)
    have hbelow : ∀ r ∈ (page key limit cursor (rows n)).1, ∀ k ∈ cursor, key r < k :=
      fun r hr => (mem_before.mp (hspec.sound r hr)).2
    obtain ⟨items, ⟨hpage, rfl⟩ | ⟨next, fuel', rest, hpage, hfuel, hrest, rfl⟩⟩ := collect_cases h
    · rw [hpage] at hspec hbelow
      simpa using ⟨hspec.strict, hbelow⟩
    · obtain rfl : fuel = fuel' := Nat.succ.inj hfuel
      rw [hpage] at hspec hbelow
      obtain ⟨⟨last, hlast, hnext⟩, hle⟩ := hspec.last next rfl
      obtain ⟨hstrict, hunder⟩ := ih hrest
      rw [List.flatten_cons, List.pairwise_append]
      refine ⟨⟨hspec.strict, hstrict, ?_⟩, ?_⟩
      · intro a ha b hb
        exact lt_of_lt_of_le (hunder b hb next rfl) (hle a ha)
      · intro r hr k hk
        rcases List.mem_append.mp hr with hhere | hlater
        · exact hbelow r hhere k hk
        · exact lt_trans (hunder r hlater next rfl) (hnext ▸ hbelow last hlast k hk)

/-- **Complete.**  A row below the cursor that is there at every fetch is yielded. -/
theorem collect_complete {fuel n : Nat} {cursor : Option κ} {got : List (List ρ)} {r : ρ}
    (h : collect (pages key limit rows) fuel n cursor = some got)
    (hthere : ∀ i < got.length, r ∈ rows (n + i)) (hr : ∀ k ∈ cursor, key r < k) :
    r ∈ got.flatten := by
  induction fuel generalizing n cursor got with
  | zero => exact nomatch h
  | succ fuel ih =>
    have hspec := page_spec cursor hlimit (hkey n)
    obtain ⟨items, ⟨hpage, rfl⟩ | ⟨next, fuel', rest, hpage, hfuel, hrest, rfl⟩⟩ := collect_cases h
    · rw [hpage] at hspec
      have hnow : r ∈ rows n := hthere 0 (by simp)
      simpa using hspec.all rfl r (mem_before.mpr ⟨hnow, hr⟩)
    · obtain rfl : fuel = fuel' := Nat.succ.inj hfuel
      rw [hpage] at hspec
      have hnow : r ∈ rows n := hthere 0 (by simp)
      rw [List.flatten_cons, List.mem_append]
      rcases hspec.rest next rfl r (mem_before.mpr ⟨hnow, hr⟩) with hhere | hlower
      · exact .inl hhere
      · right
        refine ih hrest ?_ (by simpa using hlower)
        intro i hi
        have hlater := hthere (i + 1) (by simpa using hi)
        rwa [show n + (i + 1) = n + 1 + i by omega] at hlater

/-- **Sound.**  What the `i`-th page holds was there at the `i`-th fetch. -/
theorem collect_sound {fuel n : Nat} {cursor : Option κ} {got : List (List ρ)}
    (h : collect (pages key limit rows) fuel n cursor = some got) :
    ∀ i items, got[i]? = some items → ∀ r ∈ items, r ∈ rows (n + i) := by
  induction fuel generalizing n cursor got with
  | zero => exact nomatch h
  | succ fuel ih =>
    have hspec := page_spec cursor hlimit (hkey n)
    have hhere : ∀ r ∈ (page key limit cursor (rows n)).1, r ∈ rows n :=
      fun r hr => (mem_before.mp (hspec.sound r hr)).1
    obtain ⟨first, ⟨hpage, rfl⟩ | ⟨next, fuel', rest, hpage, hfuel, hrest, rfl⟩⟩ := collect_cases h
    all_goals rw [hpage] at hhere
    · intro i items hi r hr
      cases i with
      | zero =>
        obtain rfl : first = items := by simpa using hi
        exact hhere r hr
      | succ i => simp at hi
    · obtain rfl : fuel = fuel' := Nat.succ.inj hfuel
      intro i items hi r hr
      cases i with
      | zero =>
        obtain rfl : first = items := by simpa using hi
        exact hhere r hr
      | succ i =>
        have hlater := ih hrest i items (by simpa using hi) r hr
        rwa [show n + 1 + i = n + (i + 1) by omega] at hlater

/-- A cursor of a page leaves fewer rows below it. -/
theorem before_length_lt {n : Nat} {cursor : Option κ} {items : List ρ} {next : κ}
    (hpage : page key limit cursor (rows n) = (items, some next)) :
    (before key (some next) (rows n)).length < (before key cursor (rows n)).length := by
  have hspec := page_spec cursor hlimit (hkey n)
  rw [hpage] at hspec
  obtain ⟨⟨last, hlast, hnext⟩, -⟩ := hspec.last next rfl
  have hmem := hspec.sound last hlast
  have hsub : (before key (some next) (rows n)).Sublist (before key cursor (rows n)) := by
    refine List.monotone_filter_right _ ?_
    intro r hr
    cases cursor with
    | none => rfl
    | some k =>
      have hk : next < k := hnext ▸ (mem_before.mp hmem).2 k rfl
      simp only [Option.all_some, decide_eq_true_eq] at hr ⊢
      exact lt_trans hr hk
  refine lt_of_le_of_ne hsub.length_le ?_
  intro hlen
  have hself : last ∈ before key (some next) (rows n) := by
    rw [hsub.eq_of_length hlen]
    exact hmem
  exact absurd ((mem_before.mp hself).2 next rfl) (hnext ▸ lt_irrefl _)

/-- **Total.**  Once the rows no longer change, the cursors come to an end. -/
theorem collect_total {N : Nat} (hstill : ∀ n, N ≤ n → rows (n + 1) = rows n) (n : Nat)
    (cursor : Option κ) : ∃ fuel got, collect (pages key limit rows) fuel n cursor = some got := by
  have hlater : ∀ n, N ≤ n → ∀ m cursor, (before key cursor (rows n)).length ≤ m →
      ∃ got, collect (pages key limit rows) (m + 1) n cursor = some got := by
    intro n hn m
    induction m generalizing n with
    | zero =>
      intro cursor hm
      rcases hpage : page key limit cursor (rows n) with ⟨items, _ | next⟩
      · exact ⟨[items], by simp [collect, pages, hpage]⟩
      · exact absurd (before_length_lt hlimit hkey hpage) (by omega)
    | succ m ih =>
      intro cursor hm
      rcases hpage : page key limit cursor (rows n) with ⟨items, _ | next⟩
      · exact ⟨[items], by simp [collect, pages, hpage]⟩
      · have hlt := before_length_lt hlimit hkey hpage
        rw [← hstill n hn] at hlt
        obtain ⟨rest, hrest⟩ := ih (n + 1) (by omega) (some next) (by rw [hstill n hn] at *; omega)
        refine ⟨items :: rest, ?_⟩
        rw [collect, pages, hpage]
        simp only [hrest, Option.map_some]
  by_cases hn : N ≤ n
  · obtain ⟨got, hgot⟩ := hlater n hn _ cursor le_rfl
    exact ⟨_, got, hgot⟩
  · -- the fetches before the rows come to rest
    obtain ⟨d, hd⟩ : ∃ d, n + d = N := ⟨N - n, by omega⟩
    induction d generalizing n cursor with
    | zero => omega
    | succ d ih =>
      rcases hpage : page key limit cursor (rows n) with ⟨items, _ | next⟩
      · exact ⟨1, [items], by simp [collect, pages, hpage]⟩
      · have hrest : ∃ fuel got,
            collect (pages key limit rows) fuel (n + 1) (some next) = some got := by
          by_cases hnext : N ≤ n + 1
          · obtain ⟨got, hgot⟩ := hlater (n + 1) hnext _ (some next) le_rfl
            exact ⟨_, got, hgot⟩
          · exact ih (n + 1) (some next) hnext (by omega)
        obtain ⟨fuel, rest, hrest⟩ := hrest
        refine ⟨fuel + 1, items :: rest, ?_⟩
        rw [collect, pages, hpage]
        simp only [hrest, Option.map_some]

/-- **Unchanged rows.**  If nothing changes, the pages together are all the rows, in order. -/
theorem collect_eq_descending {fuel : Nat} {got : List (List ρ)} {all : List ρ}
    (hsame : ∀ n, rows n = all) (h : collect (pages key limit rows) fuel 0 none = some got) :
    got.flatten = descending key all := by
  have hstrict := (collect_strict hlimit hkey h).1
  have hnodup : ∀ l : List ρ, (l.map key).Nodup → l.Nodup := fun l hl => hl.of_map key
  refine eq_descending ((List.perm_ext_iff_of_nodup ?_ ?_).mpr ?_) hstrict
  · exact hstrict.imp fun hlt heq => absurd (heq ▸ hlt) (lt_irrefl _)
  · exact hnodup all (hsame 0 ▸ hkey 0)
  · intro r
    constructor
    · intro hr
      obtain ⟨items, hitems, hmem⟩ := List.mem_flatten.mp hr
      obtain ⟨i, hi⟩ := List.getElem?_of_mem hitems
      have hthere := collect_sound hlimit hkey h i items hi r hmem
      rwa [hsame] at hthere
    · intro hr
      exact collect_complete hlimit hkey h (fun i _ => (hsame (0 + i)).symm ▸ hr) nofun

end Traversal

end Keyset
