/-
# HTML text that is stored twice

The parser leaves out what is nested in a table and a paragraph that is nested in a list item.
Every other nesting stores the text of the inner element twice: an item within an item, a heading
within an item, a table within either, a table within a cell.

How often a text node is stored depends on the tags around it alone (`count_emitted`,
`count_places`), so the exact condition is one on these (`texts`, `tables`, `cells`).

* `stored_once`: exactly when every text node is in at most one block, or at most one place of one;
* `not_stored_once`: an item within an item.
-/
import AtlasKnowledge.Parsing.Html
import Mathlib.Algebra.Order.BigOperators.Group.List
import Mathlib.Algebra.Order.Group.Nat

namespace AtlasKnowledge.Parsing

/-! ## 1. The property -/

/-- Stripping leaves something of the text node. -/
def TextNode.NonBlank (x : TextNode) : Prop := Str.strip x.text ≠ []

instance : DecidablePred TextNode.NonBlank := fun x =>
  inferInstanceAs (Decidable (Str.strip x.text ≠ []))

/-- The text node contributes to the text put together from these. -/
def contributes (x : TextNode) (strings : List TextNode) : Bool := x ∈ strings ∧ x.NonBlank

def Emitted.has (x : TextNode) (e : Emitted) : Bool := e.places.any (contributes x)

/-- Every text node contributes to at most one of the blocks, by their texts or their cells. -/
def InOneBlock (soup : Soup) : Prop :=
  ∀ x ∈ soup.forest.leaves, soup.emitted.countP (Emitted.has x) ≤ 1

/-- Every text node contributes to at most one of the texts and cells of all blocks. -/
def InOnePlace (soup : Soup) : Prop :=
  ∀ x ∈ soup.forest.leaves, (soup.emitted.flatMap Emitted.places).countP (contributes x) ≤ 1

/-! ## 2. The condition -/

def isHeadingOrItem : TagName → Bool
  | .heading _ | .li => true
  | _ => false

/-- The tags, the outermost first, that store the text in them as their own: the headings and items
outside tables, and the paragraphs outside tables and items. -/
def texts (path : List TagName) : Nat :=
  let outside := path.takeWhile (· ≠ .table)
  outside.countP isHeadingOrItem + (outside.takeWhile (· ≠ .li)).countP (· = .p)

/-- The cells within a row, for every row. -/
def cellsOfRows : List TagName → Nat
  | [] => 0
  | .tr :: below => below.countP isCell + cellsOfRows below
  | _ :: below => cellsOfRows below

/-- The sum over the tables of what is in them. -/
def overTables (u : List TagName → Nat) : List TagName → Nat
  | [] => 0
  | .table :: below => u below + overTables u below
  | _ :: below => overTables u below

/-- The cells within a row within a table, for every table and row. -/
def cells : List TagName → Nat := overTables cellsOfRows

/-- The tables with a cell within a row. -/
def tables : List TagName → Nat := overTables fun below => if cellsOfRows below = 0 then 0 else 1

/-! ## 3. Sums over tags -/

theorem countP_eq_sum {α : Type} (q : α → Bool) (l : List α) :
    l.countP q = (l.map fun y => (q y).toNat).sum := by
  induction l with
  | nil => rfl
  | cons y l ih =>
    rw [List.countP_cons, List.map_cons, List.sum_cons, ih, Nat.add_comm]
    cases q y <;> rfl

theorem sum_map_filter {α : Type} (q : α → Bool) (w : α → Nat) (l : List α) :
    ((l.filter q).map w).sum = (l.map fun y => if q y then w y else 0).sum := by
  induction l with
  | nil => rfl
  | cons y l ih => cases hq : q y <;> simp [hq, ih]

variable {x : TextNode} {path above : List TagName} {f : Forest TagName TextNode}
  {names : TagName → Bool} {w : Tag → Nat} {v : List TagName → TagName → List TagName → Nat}

/-- Over the tags that are found, a weight that counts a text node where it is in the tag comes to
the sum over the names around it. -/
theorem sum_findAll (hout : ∀ el : Tag, x ∉ el.children.leaves → w el = 0)
    (hin : ∀ (el : Tag) (path : List TagName), names el.name = true → el.children.leaves.Nodup →
      (x, path) ∈ el.children.paths → w el = v el.above el.name path)
    (hnodup : f.leaves.Nodup) (h : (x, path) ∈ f.paths) :
    ((findAll names above f).map w).sum =
      Forest.sumAlong (fun above name below => if names name then v above name below else 0)
        above path := by
  rw [findAll, sum_map_filter]
  refine Forest.sum_elements (a := x) ?_ ?_ hnodup h
  · intro el hel
    rw [hout el hel, ite_self]
  · intro el path hchildren hpath
    by_cases hname : names el.name = true
    · rw [if_pos hname, if_pos hname, hin el path hname hchildren hpath]
    · rw [if_neg hname, if_neg hname]

theorem sum_findAll_of_not_mem (hout : ∀ el : Tag, x ∉ el.children.leaves → w el = 0)
    (hx : x ∉ f.leaves) : ((findAll names above f).map w).sum = 0 := by
  rw [findAll, sum_map_filter]
  refine Forest.sum_elements_of_not_mem (a := x) (fun el hel => ?_) hx
  rw [hout el hel, ite_self]

/-! ## 4. Tables -/

/-- A text node that is not blank contributes to the texts it is in. -/
theorem contributes_of_mem {strings : List TextNode} (hx : x.NonBlank) (h : x ∈ strings) :
    contributes x strings = true :=
  decide_eq_true ⟨h, hx⟩

theorem contributes_of_not_mem {strings : List TextNode} (h : x ∉ strings) :
    contributes x strings = false :=
  decide_eq_false fun hmem => h hmem.1

/-- How many cells of the row the text node is in. -/
theorem count_row (hx : x.NonBlank) {tr : Tag} (hnodup : tr.children.leaves.Nodup)
    (h : (x, path) ∈ tr.children.paths) :
    ((tr.findAll isCell).map fun cell => cell.children.leaves).countP (contributes x) =
      path.countP isCell := by
  have halong : ∀ above, Forest.sumAlong (fun _ name _ => if isCell name then 1 else 0) above path =
      path.countP isCell := by
    clear h
    induction path with
    | nil => exact fun _ => rfl
    | cons name path ih =>
      intro above
      rw [Forest.sumAlong, ih, List.countP_cons, Nat.add_comm]
  rw [countP_eq_sum, List.map_map, Tag.findAll]
  refine (sum_findAll (x := x) ?_ ?_ hnodup h).trans (halong _)
  · exact fun cell hcell => congrArg Bool.toNat (contributes_of_not_mem hcell)
  · intro cell path _ _ hpath
    exact congrArg Bool.toNat (contributes_of_mem hx (Forest.mem_leaves_iff.mpr ⟨path, hpath⟩))

theorem count_row_of_not_mem {tr : Tag} (hx : x ∉ tr.children.leaves) :
    ((tr.findAll isCell).map fun cell => cell.children.leaves).countP (contributes x) = 0 := by
  rw [countP_eq_sum, List.map_map, Tag.findAll]
  exact sum_findAll_of_not_mem
    (fun cell hcell => congrArg Bool.toNat (contributes_of_not_mem hcell)) hx

/-- A row without cells is left out, which leaves out no cell. -/
theorem flatten_tableRows (table : Tag) :
    (tableRows table).flatten = (table.findAll fun name => name = .tr).flatMap fun tr =>
      (tr.findAll isCell).map fun cell => cell.children.leaves := by
  rw [tableRows, List.flatten_filter_ne_nil, List.flatMap]

/-- How many cells of the table the text node is in. -/
theorem count_table (hx : x.NonBlank) {table : Tag} (hnodup : table.children.leaves.Nodup)
    (h : (x, path) ∈ table.children.paths) :
    (tableRows table).flatten.countP (contributes x) = cellsOfRows path := by
  have halong : ∀ above, Forest.sumAlong
      (fun _ name below => if decide (name = .tr) then below.countP isCell else 0) above path =
        cellsOfRows path := by
    clear h
    induction path with
    | nil => exact fun _ => rfl
    | cons name path ih =>
      intro above
      rw [Forest.sumAlong, ih]
      cases name <;> simp [cellsOfRows]
  rw [flatten_tableRows, List.countP_flatMap, Tag.findAll]
  refine (sum_findAll (x := x) ?_ ?_ hnodup h).trans (halong _)
  · exact fun tr htr => count_row_of_not_mem htr
  · exact fun tr path _ hchildren hpath => count_row hx hchildren hpath

theorem count_table_of_not_mem {table : Tag} (hx : x ∉ table.children.leaves) :
    (tableRows table).flatten.countP (contributes x) = 0 := by
  rw [flatten_tableRows, List.countP_flatMap, Tag.findAll]
  exact sum_findAll_of_not_mem (fun tr htr => count_row_of_not_mem htr) hx

/-! ## 5. Blocks -/

/-- The places of the block that the tag becomes, if it becomes one. -/
def placesOf (el : Tag) : List (List TextNode) := ((emit el).map Emitted.places).getD []

/-- How often a tag stores what is in it, if a table does so as `u` says. -/
def storing (u : List TagName → Nat) (above : List TagName) (name : TagName)
    (below : List TagName) : Nat :=
  match name with
  | .table => u below
  | .heading _ | .li => if .table ∈ above then 0 else 1
  | .p => if .table ∈ above ∨ .li ∈ above then 0 else 1
  | _ => 0

theorem placesOf_text {el : Tag} (hname : el.name ≠ .table) :
    placesOf el = [] ∨ placesOf el = [el.children.leaves] := by
  unfold placesOf emit
  by_cases hskip : el.name ≠ .table ∧ .table ∈ el.above
  · rw [if_pos hskip]
    exact .inl rfl
  · rw [if_neg hskip]
    cases hel : el.name with
    | table => exact absurd hel hname
    | heading level => exact .inr rfl
    | li => exact .inr rfl
    | _ =>
      dsimp only
      split_ifs
      · exact .inl rfl
      · exact .inr rfl

theorem placesOf_table {el : Tag} (hname : el.name = .table) :
    placesOf el = (tableRows el).flatten := by
  unfold placesOf emit
  rw [if_neg fun h => h.1 hname, hname]
  rfl

theorem count_placesOf_of_not_mem {el : Tag} (hx : x ∉ el.children.leaves) :
    (placesOf el).countP (contributes x) = 0 := by
  by_cases hname : el.name = .table
  · rw [placesOf_table hname]
    exact count_table_of_not_mem hx
  · rcases placesOf_text hname with h | h
    · rw [h]
      rfl
    · rw [h, List.countP_singleton, contributes_of_not_mem hx]
      rfl

theorem count_placesOf (hx : x.NonBlank) {el : Tag} (hwanted : wanted el.name = true)
    (hnodup : el.children.leaves.Nodup) (h : (x, path) ∈ el.children.paths) :
    (placesOf el).countP (contributes x) = storing cellsOfRows el.above el.name path := by
  have hmem : contributes x el.children.leaves = true :=
    contributes_of_mem hx (Forest.mem_leaves_iff.mpr ⟨path, h⟩)
  cases hname : el.name with
  | table =>
    rw [placesOf_table hname]
    exact count_table hx hnodup h
  | heading level =>
    by_cases htable : TagName.table ∈ el.above
    · simp [placesOf, emit, hname, htable, storing]
    · simp [placesOf, emit, hname, htable, storing, Emitted.places, hmem]
  | li =>
    by_cases htable : TagName.table ∈ el.above
    · simp [placesOf, emit, hname, htable, storing]
    · simp [placesOf, emit, hname, htable, storing, Emitted.places, hmem]
  | p =>
    by_cases htable : TagName.table ∈ el.above
    · simp [placesOf, emit, hname, htable, storing]
    · by_cases hli : TagName.li ∈ el.above
      · simp [placesOf, emit, hname, htable, hli, storing]
      · simp [placesOf, emit, hname, htable, hli, storing, Emitted.places, hmem]
  | _ =>
    rw [hname] at hwanted
    cases hwanted

/-! ## 6. Along a path -/

/-- The tags that store the text as their own, below others. -/
def textsBelow (above path : List TagName) : Nat :=
  if .table ∈ above then 0
  else
    let outside := path.takeWhile (· ≠ .table)
    outside.countP isHeadingOrItem +
      if .li ∈ above then 0 else (outside.takeWhile (· ≠ .li)).countP (· = .p)

theorem sumAlong_storing (u : List TagName → Nat) (above path : List TagName) :
    Forest.sumAlong (fun above name below => if wanted name then storing u above name below else 0)
      above path = textsBelow above path + overTables u path := by
  induction path generalizing above with
  | nil => simp [Forest.sumAlong, textsBelow, overTables]
  | cons name path ih =>
    rw [Forest.sumAlong, ih]
    by_cases htable : TagName.table ∈ above
    · cases name <;> simp [textsBelow, storing, wanted, overTables, htable]
    · by_cases hli : TagName.li ∈ above
      · cases name <;>
          simp [textsBelow, storing, wanted, overTables, htable, hli, isHeadingOrItem,
            List.countP_cons] <;>
          omega
      · cases name <;>
          simp [textsBelow, storing, wanted, overTables, htable, hli, isHeadingOrItem,
            List.countP_cons] <;>
          omega

theorem storing_eq_zero (above : List TagName) (name : TagName) (below : List TagName) :
    (if storing cellsOfRows above name below = 0 then 0 else 1) =
      storing (fun below => if cellsOfRows below = 0 then 0 else 1) above name below := by
  cases name with
  | table => rfl
  | heading level | li => by_cases htable : TagName.table ∈ above <;> simp [storing, htable]
  | p =>
    by_cases hskip : TagName.table ∈ above ∨ TagName.li ∈ above
    · rw [storing, if_pos hskip, storing, if_pos hskip]
      rfl
    · rw [storing, if_neg hskip, storing, if_neg hskip]
      rfl
  | _ => rfl

/-! ## 7. All blocks -/

variable {soup : Soup}

theorem content_sublist (soup : Soup) : soup.content.leaves.Sublist soup.forest.leaves :=
  Forest.leaves_prune soup.forest

theorem content_nodup (soup : Soup) : soup.content.leaves.Nodup :=
  (content_sublist soup).nodup soup.nodup

theorem sum_filterMap {α β : Type} (g : α → Option β) (q : β → Nat) (l : List α) :
    ((l.filterMap g).map q).sum = (l.map fun y => ((g y).map q).getD 0).sum := by
  induction l with
  | nil => rfl
  | cons y l ih =>
    cases hy : g y with
    | none => simp [List.filterMap_cons_none hy, hy, ih]
    | some b => simp [List.filterMap_cons_some hy, hy, ih]

theorem count_places_eq (soup : Soup) (x : TextNode) :
    (soup.emitted.flatMap Emitted.places).countP (contributes x) =
      ((findAll wanted [] soup.content).map fun el =>
        (placesOf el).countP (contributes x)).sum := by
  rw [List.countP_flatMap, Soup.emitted, sum_filterMap]
  congr 1
  refine List.map_congr_left fun el _ => ?_
  unfold placesOf
  cases emit el <;> rfl

theorem has_eq (x : TextNode) (e : Emitted) :
    (e.has x).toNat = if e.places.countP (contributes x) = 0 then 0 else 1 := by
  unfold Emitted.has
  split_ifs with h
  · have hnone : e.places.any (contributes x) = false := by
      rw [List.any_eq_false]
      exact List.countP_eq_zero.mp h
    rw [hnone]
    rfl
  · have hsome : e.places.any (contributes x) = true := by
      rw [List.any_eq_true]
      obtain ⟨place, hplace, hx⟩ := List.countP_pos_iff.mp (Nat.pos_of_ne_zero h)
      exact ⟨place, hplace, hx⟩
    rw [hsome]
    rfl

theorem count_emitted_eq (soup : Soup) (x : TextNode) :
    soup.emitted.countP (Emitted.has x) =
      ((findAll wanted [] soup.content).map fun el =>
        if (placesOf el).countP (contributes x) = 0 then 0 else 1).sum := by
  rw [countP_eq_sum, Soup.emitted, sum_filterMap]
  congr 1
  refine List.map_congr_left fun el _ => ?_
  unfold placesOf
  cases emit el with
  | none => rfl
  | some e => exact has_eq x e

/-- **How often a text node is stored**: once for each tag that stores its text as its own, and
once for each cell. -/
theorem count_places (hx : x.NonBlank) (h : (x, path) ∈ soup.content.paths) :
    (soup.emitted.flatMap Emitted.places).countP (contributes x) = texts path + cells path := by
  rw [count_places_eq]
  refine (sum_findAll (x := x) (v := storing cellsOfRows) ?_ ?_ (content_nodup soup) h).trans ?_
  · exact fun el hel => count_placesOf_of_not_mem hel
  · exact fun el path hname hnodup hpath => count_placesOf hx hname hnodup hpath
  · exact sumAlong_storing cellsOfRows [] path

/-- **In how many blocks**: a table counts once. -/
theorem count_emitted (hx : x.NonBlank) (h : (x, path) ∈ soup.content.paths) :
    soup.emitted.countP (Emitted.has x) = texts path + tables path := by
  rw [count_emitted_eq]
  refine (sum_findAll (x := x)
    (v := storing fun below => if cellsOfRows below = 0 then 0 else 1) ?_ ?_ (content_nodup soup)
    h).trans ?_
  · intro el hel
    rw [count_placesOf_of_not_mem hel]
    rfl
  · intro el path hname hnodup hpath
    rw [count_placesOf hx hname hnodup hpath, storing_eq_zero]
  · exact sumAlong_storing _ [] path

/-- A text node that is blank or not in the content is in no place. -/
theorem count_places_eq_zero (h : ¬(x.NonBlank ∧ x ∈ soup.content.leaves)) :
    (soup.emitted.flatMap Emitted.places).countP (contributes x) = 0 := by
  by_cases hx : x.NonBlank
  · rw [count_places_eq]
    exact sum_findAll_of_not_mem (fun el hel => count_placesOf_of_not_mem hel)
      fun hmem => h ⟨hx, hmem⟩
  · rw [List.countP_eq_zero]
    exact fun place _ hplace => hx (of_decide_eq_true hplace).2

theorem count_emitted_le (soup : Soup) (x : TextNode) :
    soup.emitted.countP (Emitted.has x) ≤
      (soup.emitted.flatMap Emitted.places).countP (contributes x) := by
  rw [countP_eq_sum, List.countP_flatMap]
  refine List.sum_le_sum fun e _ => ?_
  rw [has_eq, Function.comp_apply]
  split_ifs with hzero
  · exact Nat.zero_le _
  · exact Nat.pos_of_ne_zero hzero

/-- A count that is given by the tags around a text node is at most one exactly if these say so. -/
theorem forall_le_one_iff {count : TextNode → Nat} {bound : List TagName → Nat}
    (hzero : ∀ x, ¬(x.NonBlank ∧ x ∈ soup.content.leaves) → count x = 0)
    (hcount : ∀ x path, x.NonBlank → (x, path) ∈ soup.content.paths → count x = bound path) :
    (∀ x ∈ soup.forest.leaves, count x ≤ 1) ↔
      ∀ p ∈ soup.content.paths, p.1.NonBlank → bound p.2 ≤ 1 := by
  constructor
  · intro h p hp hx
    rw [← hcount p.1 p.2 hx hp]
    refine h p.1 ((content_sublist soup).subset ?_)
    exact Forest.mem_leaves_iff.mpr ⟨p.2, hp⟩
  · intro h x _
    by_cases hx : x.NonBlank ∧ x ∈ soup.content.leaves
    · obtain ⟨path, hpath⟩ := Forest.mem_leaves_iff.mp hx.2
      rw [hcount x path hx.1 hpath]
      exact h (x, path) hpath hx.1
    · rw [hzero x hx]
      exact Nat.zero_le 1

/-- **Every text node is in at most one block exactly if, of the tags around it that store its text
and of the tables that have it in a cell, there is at most one; and in at most one place exactly if
there is at most one of these tags and of the cells.** -/
theorem stored_once (soup : Soup) :
    (InOneBlock soup ↔
        ∀ p ∈ soup.content.paths, p.1.NonBlank → texts p.2 + tables p.2 ≤ 1) ∧
      (InOnePlace soup ↔
        ∀ p ∈ soup.content.paths, p.1.NonBlank → texts p.2 + cells p.2 ≤ 1) := by
  constructor
  · refine @forall_le_one_iff soup _ (fun path => texts path + tables path) (fun x hx => ?_)
      fun x path hx hpath => count_emitted hx hpath
    exact Nat.eq_zero_of_le_zero ((count_emitted_le soup x).trans (count_places_eq_zero hx).le)
  · exact @forall_le_one_iff soup _ (fun path => texts path + cells path)
      (fun x hx => count_places_eq_zero hx) fun x path hx hpath => count_places hx hpath

/-! ## 8. An item within an item -/

/-- `<ul><li>A<ul><li>B</li></ul></li></ul>`. -/
def nestedItems : Soup where
  forest :=
    .node (.other "ul")
      (.node .li
        (.leaf ⟨0, ['A']⟩
          (.node (.other "ul") (.node .li (.leaf ⟨1, ['B']⟩ .nil) .nil) .nil))
        .nil)
      .nil
  nodup := by decide

/-- The text of the inner item is in both blocks. -/
theorem not_stored_once : ¬InOneBlock nestedItems ∧ ¬InOnePlace nestedItems := by
  have hleaf : (⟨1, ['B']⟩ : TextNode) ∈ nestedItems.forest.leaves := by decide
  constructor
  · intro h
    exact absurd (h _ hleaf) (by decide)
  · intro h
    exact absurd (h _ hleaf) (by decide)

end AtlasKnowledge.Parsing
