/-
# Tables with a primary key

A table is the list of its rows in the order of their primary keys, each key once: two tables
with the same rows are the same table.  A statement reads the rows that its `WHERE` selects; an
insert fails if the key is taken.

* `select_insert`, `select_update`, `select_delete`: what a selection is after a statement.
-/
import Mathlib.Data.List.Sort

variable {ρ κ : Type*} [LinearOrder κ]

/-- Rows in strictly increasing order of their keys. -/
structure Table (ρ : Type*) {κ : Type*} [LinearOrder κ] (key : ρ → κ) where
  rows : List ρ
  sorted : rows.Pairwise fun a b => key a < key b

namespace Table

variable {key : ρ → κ}

/-! ## 1. Statements -/

/-- No rows. -/
def empty : Table ρ key := ⟨[], .nil⟩

/-- `SELECT ... WHERE p`. -/
def select (t : Table ρ key) (p : ρ → Bool) : List ρ := t.rows.filter p

/-- `SELECT ... WHERE p`, where at most one row is expected. -/
def selectOne (t : Table ρ key) (p : ρ → Bool) : Option ρ := t.rows.find? p

/-- A row in its place. -/
def place (key : ρ → κ) (r : ρ) (rows : List ρ) : List ρ :=
  rows.orderedInsert (fun a b => key a ≤ key b) r

theorem mem_place {r x : ρ} {rows : List ρ} : x ∈ place key r rows ↔ x = r ∨ x ∈ rows :=
  List.mem_orderedInsert _

theorem place_of_le {r a : ρ} (rows : List ρ) (h : key r ≤ key a) :
    place key r (a :: rows) = r :: a :: rows := by
  rw [place, List.orderedInsert_cons, if_pos h]

theorem place_of_not_le {r a : ρ} (rows : List ρ) (h : ¬ key r ≤ key a) :
    place key r (a :: rows) = a :: place key r rows := by
  rw [place, List.orderedInsert_cons, if_neg h]
  rfl

theorem sorted_place {r : ρ} {rows : List ρ} (h : rows.Pairwise fun a b => key a < key b)
    (hr : ∀ x ∈ rows, key x ≠ key r) : (place key r rows).Pairwise fun a b => key a < key b := by
  induction rows with
  | nil => exact List.pairwise_singleton _ _
  | cons a rows ih =>
    obtain ⟨hhead, htail⟩ := List.pairwise_cons.mp h
    obtain ⟨ha, hrest⟩ := List.forall_mem_cons.mp hr
    by_cases hle : key r ≤ key a
    · rw [place_of_le rows hle, List.pairwise_cons]
      have hlt : key r < key a := lt_of_le_of_ne hle (Ne.symm ha)
      exact ⟨List.forall_mem_cons.mpr ⟨hlt, fun x hx => lt_trans hlt (hhead x hx)⟩, h⟩
    · rw [place_of_not_le rows hle, List.pairwise_cons]
      refine ⟨?_, ih htail hrest⟩
      intro x hx
      rcases mem_place.mp hx with rfl | hx
      · exact not_le.mp hle
      · exact hhead x hx

/-- `INSERT`: `none` if the key is taken. -/
def insert? (t : Table ρ key) (r : ρ) : Option (Table ρ key) :=
  if h : ∀ x ∈ t.rows, key x ≠ key r then some ⟨place key r t.rows, sorted_place t.sorted h⟩
  else none

/-- `UPDATE ... WHERE p`, of columns other than the key. -/
def update (t : Table ρ key) (p : ρ → Bool) (f : ρ → ρ) (hf : ∀ r, key (f r) = key r) :
    Table ρ key where
  rows := t.rows.map fun r => if p r then f r else r
  sorted := by
    have hkey : ∀ r, key (if p r then f r else r) = key r := by
      intro r
      split
      · exact hf r
      · rfl
    rw [List.pairwise_map]
    simpa only [hkey] using t.sorted

/-- `DELETE ... WHERE p`. -/
def delete (t : Table ρ key) (p : ρ → Bool) : Table ρ key :=
  ⟨t.rows.filter fun r => !p r, t.sorted.sublist List.filter_sublist⟩

/-! ## 2. Selections -/

variable {t t' : Table ρ key} {p q : ρ → Bool} {r x : ρ}

theorem mem_select : x ∈ t.select p ↔ x ∈ t.rows ∧ p x = true := List.mem_filter

/-- One key, one row. -/
theorem eq_of_key (hx : x ∈ t.rows) (hr : r ∈ t.rows) (h : key x = key r) : x = r := by
  have hnodup : (t.rows.map key).Nodup := by
    rw [List.Nodup, List.pairwise_map]
    exact t.sorted.imp fun hlt => ne_of_lt hlt
  exact List.inj_on_of_nodup_map hnodup hx hr h

theorem nodup_select : ((t.select p).map key).Nodup := by
  rw [List.Nodup, List.pairwise_map]
  exact (t.sorted.imp fun hlt => ne_of_lt hlt).sublist List.filter_sublist

/-- Rows in strictly increasing order of their keys are determined by their members. -/
theorem eq_of_sorted {l l' : List ρ} (hl : l.Pairwise fun a b => key a < key b)
    (hl' : l'.Pairwise fun a b => key a < key b) (h : ∀ x, x ∈ l ↔ x ∈ l') : l = l' := by
  have hnodup : ∀ {l : List ρ}, (l.Pairwise fun a b => key a < key b) → l.Nodup :=
    fun hl => hl.imp fun hlt heq => ne_of_lt hlt (congrArg key heq)
  refine List.Perm.eq_of_pairwise ?_ hl hl' ((List.perm_ext_iff_of_nodup (hnodup hl)
    (hnodup hl')).mpr h)
  intro a b _ _ hab hba
  exact absurd hab (lt_asymm hba)

theorem sorted_select : (t.select p).Pairwise fun a b => key a < key b :=
  t.sorted.sublist List.filter_sublist

/-- What is selected among the selected rows. -/
theorem select_filter : (t.select p).filter q = t.select fun r => p r && q r := by
  rw [select, select, List.filter_filter]
  exact List.filter_congr fun r _ => Bool.and_comm _ _

theorem find_select : (t.select p).find? q = t.selectOne fun r => p r && q r := by
  rw [select, selectOne, List.find?_filter]
  congr 1
  funext r
  exact Bool.decide_and (p r = true) (q r = true) |>.trans (by simp)

theorem selectOne_some (h : t.selectOne p = some r) : r ∈ t.rows ∧ p r = true :=
  ⟨List.mem_of_find?_eq_some h, List.find?_some h⟩

theorem selectOne_of_key {k : κ} (hr : r ∈ t.rows) (h : key r = k) :
    t.selectOne (fun r => key r = k) = some r := by
  have hfind : (t.rows.find? fun r => key r = k).isSome = true :=
    List.find?_isSome.mpr ⟨r, hr, decide_eq_true h⟩
  obtain ⟨x, hx⟩ := Option.isSome_iff_exists.mp hfind
  obtain ⟨hmem, hkey⟩ := selectOne_some hx
  rw [eq_of_key hmem hr ((of_decide_eq_true hkey).trans h.symm)] at hx
  exact hx

theorem insert_eq_some (h : t.insert? r = some t') :
    t'.rows = place key r t.rows ∧ ∀ x ∈ t.rows, key x ≠ key r := by
  unfold insert? at h
  split at h
  · rename_i hfree
    obtain rfl := Option.some.inj h
    exact ⟨rfl, hfree⟩
  · exact nomatch h

theorem insert_of_free (h : ∀ x ∈ t.rows, key x ≠ key r) :
    ∃ t', t.insert? r = some t' := ⟨_, dif_pos h⟩

theorem mem_insert (h : t.insert? r = some t') : x ∈ t'.rows ↔ x = r ∨ x ∈ t.rows := by
  rw [(insert_eq_some h).1, mem_place]

/-- What holds of the rows and of the new row holds of the rows after it. -/
theorem forall_mem_insert {P : ρ → Prop} (h : t.insert? r = some t') (hnew : P r)
    (hrows : ∀ x ∈ t.rows, P x) : ∀ x ∈ t'.rows, P x := by
  intro x hx
  rcases (mem_insert h).mp hx with rfl | hold
  · exact hnew
  · exact hrows x hold

/-- A row that the new row is not. -/
theorem exists_mem_insert {P : ρ → Prop} (h : t.insert? r = some t') (hnew : ¬ P r) :
    (∃ x ∈ t'.rows, P x) ↔ ∃ x ∈ t.rows, P x := by
  constructor
  · rintro ⟨x, hx, hP⟩
    rcases (mem_insert h).mp hx with rfl | hold
    · exact absurd hP hnew
    · exact ⟨x, hold, hP⟩
  · rintro ⟨x, hx, hP⟩
    exact ⟨x, (mem_insert h).mpr (.inr hx), hP⟩

theorem filter_place {rows : List ρ} (h : rows.Pairwise fun a b => key a < key b) :
    (place key r rows).filter p = if p r then place key r (rows.filter p) else rows.filter p := by
  induction rows with
  | nil => by_cases hp : p r <;> simp [place, hp]
  | cons a rows ih =>
    obtain ⟨hhead, htail⟩ := List.pairwise_cons.mp h
    have ih := ih htail
    by_cases hle : key r ≤ key a
    · -- `r` stands in front of everything that is kept
      have hfront : ∀ l : List ρ, (∀ x ∈ l, key a ≤ key x) → place key r l = r :: l := by
        intro l hl
        cases l with
        | nil => rfl
        | cons x l =>
          exact place_of_le l (le_trans hle (hl x List.mem_cons_self))
      have hall : ∀ x ∈ a :: rows, key a ≤ key x :=
        List.forall_mem_cons.mpr ⟨le_rfl, fun x hx => le_of_lt (hhead x hx)⟩
      rw [hfront _ hall, hfront _ fun x hx => hall x (List.mem_filter.mp hx).1, List.filter_cons]
    · rw [place_of_not_le rows hle, List.filter_cons, List.filter_cons, ih]
      by_cases hp : p a = true
      · rw [if_pos hp, if_pos hp]
        by_cases hr : p r = true
        · rw [if_pos hr, if_pos hr]
          exact (place_of_not_le _ hle).symm
        · rw [if_neg hr, if_neg hr]
      · rw [if_neg hp, if_neg hp]

/-- **After an insert** a selection has the new row, or is as it was. -/
theorem select_insert (h : t.insert? r = some t') :
    t'.select p = if p r then place key r (t.select p) else t.select p := by
  rw [select, (insert_eq_some h).1, filter_place t.sorted]
  rfl

/-- **After an update** that moves no row into a selection or out of it. -/
theorem select_update {f : ρ → ρ} {hf : ∀ r, key (f r) = key r} (h : ∀ r, q (f r) = q r) :
    (t.update p f hf).select q = (t.select q).map fun r => if p r then f r else r := by
  have hq : ∀ r, q (if p r then f r else r) = q r := by
    intro r
    split
    · exact h r
    · rfl
  simp only [select, update, List.filter_map]
  congr 1
  exact List.filter_congr fun r _ => hq r

/-- **After a delete** a selection lacks what was deleted. -/
theorem select_delete : (t.delete p).select q = (t.select q).filter fun r => !p r := by
  rw [select, delete, select, List.filter_filter, List.filter_filter]
  exact List.filter_congr fun r _ => Bool.and_comm _ _

end Table
