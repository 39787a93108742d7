/-
# `dict`

Python's dictionaries: each key once, in the order in which the keys came first, with the value
that came last.

* `mem_ofRows`, `get_ofRows`: a dictionary made of rows holds nothing but rows;
* `entries_ofRows`, `get?_ofRows`: of rows with different keys it holds all, in their order;
* `map_filterMap_get?`: rows are found by their keys, in the order of the keys.
-/
import Mathlib.Data.List.Nodup

/-- A `dict`: every key once, in the order of insertion. -/
structure Dict (κ ν : Type*) where
  entries : List (κ × ν)
  nodup : (entries.map Prod.fst).Nodup

namespace Dict

variable {κ ν : Type*} [DecidableEq κ] {d : Dict κ ν} {rows : List (κ × ν)} {e : κ × ν} {k : κ}
  {v : ν}

/-! ## 1. Making and reading -/

def empty : Dict κ ν := ⟨[], List.nodup_nil⟩

/-- The entry with its value replaced, if it is the key's. -/
def put (k : κ) (v : ν) (e : κ × ν) : κ × ν := if e.1 = k then (k, v) else e

theorem put_fst (k : κ) (v : ν) (e : κ × ν) : (put k v e).1 = e.1 := by
  unfold put
  split_ifs with h
  · exact h.symm
  · rfl

/-- `d[k] = v`. -/
def set (d : Dict κ ν) (k : κ) (v : ν) : Dict κ ν :=
  if h : k ∈ d.entries.map Prod.fst then
    { entries := d.entries.map (put k v)
      nodup := by
        rw [List.map_map, show Prod.fst ∘ put k v = Prod.fst from funext (put_fst k v)]
        exact d.nodup }
  else
    { entries := d.entries ++ [(k, v)]
      nodup := by
        rw [List.map_append]
        exact d.nodup.append (List.nodup_singleton k) (List.disjoint_singleton.mpr h) }

/-- `\x7bk: v for ...\x7d`. -/
def ofRows (rows : List (κ × ν)) : Dict κ ν := rows.foldl (fun d e => d.set e.1 e.2) empty

/-- `list(d)`. -/
def keys (d : Dict κ ν) : List κ := d.entries.map Prod.fst

/-- `d[k]`; `none` is a `KeyError`. -/
def get? (d : Dict κ ν) (k : κ) : Option ν := (d.entries.find? fun e => e.1 = k).map Prod.snd

/-! ## 2. What is in it -/

theorem mem_set (h : e ∈ (d.set k v).entries) : e = (k, v) ∨ e ∈ d.entries := by
  unfold set at h
  split_ifs at h with hk
  · obtain ⟨e₀, he₀, rfl⟩ := List.mem_map.mp h
    unfold put
    split_ifs with hkey
    · exact .inl rfl
    · exact .inr he₀
  · rcases List.mem_append.mp h with h | h
    · exact .inr h
    · exact .inl (List.mem_singleton.mp h)

theorem mem_foldl_set (h : e ∈ (rows.foldl (fun d e => d.set e.1 e.2) d).entries) :
    e ∈ rows ∨ e ∈ d.entries := by
  induction rows generalizing d with
  | nil => exact .inr h
  | cons row rows ih =>
    rcases ih h with h | h
    · exact .inl (List.mem_cons_of_mem _ h)
    · rcases mem_set h with rfl | h
      · exact .inl List.mem_cons_self
      · exact .inr h

/-- **A dictionary made of rows** holds rows. -/
theorem mem_ofRows (h : e ∈ (ofRows rows).entries) : e ∈ rows := by
  rcases mem_foldl_set h with h | h
  · exact h
  · exact absurd h List.not_mem_nil

theorem mem_keys_ofRows (h : k ∈ (ofRows rows).keys) : ∃ v, (k, v) ∈ rows := by
  obtain ⟨e, he, rfl⟩ := List.mem_map.mp h
  exact ⟨e.2, mem_ofRows he⟩

theorem mem_of_get? (h : d.get? k = some v) : (k, v) ∈ d.entries := by
  obtain ⟨e, he, rfl⟩ := Option.map_eq_some_iff.mp h
  have hkey := List.find?_some he
  obtain rfl : e.1 = k := of_decide_eq_true hkey
  exact List.mem_of_find?_eq_some he

theorem get_ofRows (h : (ofRows rows).get? k = some v) : (k, v) ∈ rows :=
  mem_ofRows (mem_of_get? h)

theorem get?_isSome (h : k ∈ d.keys) : ∃ v, d.get? k = some v := by
  obtain ⟨e, he, hk⟩ := List.mem_map.mp h
  have hfind : (d.entries.find? fun e => e.1 = k).isSome = true :=
    List.find?_isSome.mpr ⟨e, he, decide_eq_true hk⟩
  obtain ⟨e', he'⟩ := Option.isSome_iff_exists.mp hfind
  exact ⟨e'.2, Option.map_eq_some_iff.mpr ⟨e', he', rfl⟩⟩

theorem get?_eq_some : d.get? k = some v ↔ (k, v) ∈ d.entries := by
  refine ⟨mem_of_get?, fun hmem => ?_⟩
  obtain ⟨v', hv'⟩ := get?_isSome (d := d) (List.mem_map_of_mem hmem)
  have hpair := List.inj_on_of_nodup_map d.nodup (mem_of_get? hv') hmem rfl
  rw [hv', (Prod.mk.inj hpair).2]

/-- What is in the dictionary after `d[k] = v`. -/
theorem mem_set_iff {k' : κ} {v' : ν} :
    (k', v') ∈ (d.set k v).entries ↔ if k' = k then v' = v else (k', v') ∈ d.entries := by
  unfold set
  split_ifs with hk heq heq
  · subst heq
    obtain ⟨e, he, hkey⟩ := List.mem_map.mp hk
    constructor
    · intro h
      obtain ⟨e', he', hput⟩ := List.mem_map.mp h
      unfold put at hput
      split_ifs at hput with hsame
      · exact (Prod.mk.inj hput).2.symm
      · exact absurd (congrArg Prod.fst hput) hsame
    · rintro rfl
      exact List.mem_map.mpr ⟨e, he, if_pos hkey⟩
  · constructor
    · intro h
      obtain ⟨e', he', hput⟩ := List.mem_map.mp h
      unfold put at hput
      split_ifs at hput with hsame
      · exact absurd (congrArg Prod.fst hput).symm heq
      · exact hput ▸ he'
    · exact fun h => List.mem_map.mpr ⟨(k', v'), h, if_neg heq⟩
  · subst heq
    constructor
    · intro h
      rcases List.mem_append.mp h with h | h
      · exact absurd (List.mem_map_of_mem h) hk
      · exact (Prod.mk.inj (List.mem_singleton.mp h)).2
    · rintro rfl
      exact List.mem_append_right _ (List.mem_singleton_self _)
  · constructor
    · intro h
      rcases List.mem_append.mp h with h | h
      · exact h
      · exact absurd (Prod.mk.inj (List.mem_singleton.mp h)).1 heq
    · exact fun h => List.mem_append_left _ h

theorem get?_set (d : Dict κ ν) (k k' : κ) (v : ν) :
    (d.set k v).get? k' = if k' = k then some v else d.get? k' := by
  by_cases hk : k' = k
  · rw [if_pos hk]
    exact get?_eq_some.mpr (mem_set_iff.mpr ((if_pos hk).mpr rfl))
  · rw [if_neg hk]
    refine Option.ext fun v' => ?_
    rw [get?_eq_some, get?_eq_some]
    exact mem_set_iff.trans (iff_of_eq (if_neg hk))

/-! ## 3. Rows with different keys -/

theorem entries_foldl_set (h : ((d.entries ++ rows).map Prod.fst).Nodup) :
    (rows.foldl (fun d e => d.set e.1 e.2) d).entries = d.entries ++ rows := by
  induction rows generalizing d with
  | nil => exact (List.append_nil _).symm
  | cons e rows ih =>
    have hnew : e.1 ∉ d.entries.map Prod.fst := by
      rw [List.map_append, List.map_cons] at h
      exact fun hmem => List.disjoint_of_nodup_append h hmem List.mem_cons_self
    have hset : (d.set e.1 e.2).entries = d.entries ++ [e] := by rw [set, dif_neg hnew]
    rw [List.foldl_cons, ih, hset, List.append_assoc, List.singleton_append]
    rwa [hset, List.append_assoc, List.singleton_append]

/-- **A dictionary made of rows with different keys** holds them all, in their order. -/
theorem entries_ofRows (h : (rows.map Prod.fst).Nodup) : (ofRows rows).entries = rows :=
  entries_foldl_set h

theorem keys_ofRows (h : (rows.map Prod.fst).Nodup) : (ofRows rows).keys = rows.map Prod.fst := by
  rw [keys, entries_ofRows h]

theorem get?_ofRows (h : (rows.map Prod.fst).Nodup) :
    (ofRows rows).get? k = some v ↔ (k, v) ∈ rows := by
  refine ⟨get_ofRows, fun hmem => ?_⟩
  have hkey : k ∈ (ofRows rows).keys := keys_ofRows h ▸ List.mem_map_of_mem hmem
  obtain ⟨v', hv'⟩ := get?_isSome hkey
  have hpair := List.inj_on_of_nodup_map h (get_ofRows hv') hmem rfl
  rw [hv', (Prod.mk.inj hpair).2]

/-- **Rows looked up by their keys**: those that are there, in the order of the keys. -/
theorem map_filterMap_get? {ρ : Type*} {key : ρ → κ} {rs : List ρ} (h : (rs.map key).Nodup)
    (ks : List κ) :
    (ks.filterMap (ofRows (rs.map fun r => (key r, r))).get?).map key
      = ks.filter fun k => k ∈ rs.map key := by
  have hfst : (rs.map fun r => (key r, r)).map Prod.fst = rs.map key := by
    rw [List.map_map]
    rfl
  induction ks with
  | nil => rfl
  | cons k ks ih =>
    cases hget : (ofRows (rs.map fun r => (key r, r))).get? k with
    | none =>
      have hnone : k ∉ rs.map key := fun hmem => by
        rw [← hfst, ← keys_ofRows (hfst ▸ h)] at hmem
        obtain ⟨r, hr⟩ := get?_isSome hmem
        exact nomatch hget.symm.trans hr
      rw [List.filterMap_cons_none hget, ih, List.filter_cons_of_neg (by simpa using hnone)]
    | some r =>
      obtain ⟨r', hr', hpair⟩ := List.mem_map.mp (get_ofRows hget)
      obtain ⟨rfl, rfl⟩ := Prod.mk.inj hpair
      have hmem : key r' ∈ rs.map key := List.mem_map_of_mem hr'
      rw [List.filterMap_cons_some hget, List.map_cons, ih, List.filter_cons,
        if_pos (decide_eq_true hmem)]

end Dict
