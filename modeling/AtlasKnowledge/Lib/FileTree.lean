/-
# A file system

Directories and files under a root, without links.  What lies in a directory has the directory
above it (`closed`), so a directory is made after the ones above it and a file is written into one
that is there.

* `mkdirs`, `write`, `rmtree`: `none` is an error of the operating system;
* `mkdirs_entry`, `write_entry`, `rmtree_entry`: what they leave at every path;
* `Tree.Confined`: nothing outside of a directory has changed.
-/
import Mathlib.Data.List.Infix
import Mathlib.Logic.Function.Basic

namespace FileTree

/-! ## 1. Trees -/

/-- A file with its data, or a directory. -/
inductive Entry (β : Type*) where
  | dir
  | file (data : β)
  deriving DecidableEq, Repr

structure Tree (ν β : Type*) where
  entry : List ν → Option (Entry β)
  root : entry [] = some .dir
  closed : ∀ p x, entry (p ++ [x]) ≠ none → entry p = some .dir

variable {ν β : Type*}

/-- There is a directory. -/
def isDir : Option (Entry β) → Bool
  | some .dir => true
  | _ => false

/-- There is a file. -/
def isFile : Option (Entry β) → Bool
  | some (.file _) => true
  | _ => false

/-- What the file holds. -/
def data? : Option (Entry β) → Option β
  | some (.file data) => some data
  | _ => none

theorem isDir_iff {e : Option (Entry β)} : isDir e = true ↔ e = some .dir := by
  rcases e with - | - | data <;> simp [isDir]

theorem not_isFile {e : Option (Entry β)} (h : isFile e = false) : e = none ∨ e = some .dir := by
  rcases e with - | - | data
  · exact .inl rfl
  · exact .inr rfl
  · cases h

namespace Tree

variable (t : Tree ν β) {p q : List ν}

/-- The contents of the file at a path. -/
def read (p : List ν) : Option β := data? (t.entry p)

/-- Above everything there are directories. -/
theorem dir_of_prefix (hpq : p <+: q) (hne : p ≠ q) (h : t.entry q ≠ none) :
    t.entry p = some .dir := by
  obtain ⟨r, rfl⟩ := hpq
  induction r using List.reverseRecOn with
  | nil => exact absurd (List.append_nil p).symm hne
  | append_singleton r x ih =>
    have hparent : t.entry (p ++ r) = some .dir := by
      refine t.closed (p ++ r) x ?_
      rwa [List.append_assoc]
    by_cases hr : p = p ++ r
    · rw [← hr] at hparent
      exact hparent
    · exact ih hr (by simp [hparent])

/-- Below what is not a directory there is nothing. -/
theorem none_of_prefix (hpq : p <+: q) (hne : p ≠ q) (h : t.entry p ≠ some .dir) :
    t.entry q = none := by
  by_contra hsome
  exact h (t.dir_of_prefix hpq hne hsome)

/-! ## 2. The operations -/

/-- A file stands in the way to `p`, or at `p`. -/
def blocked (p : List ν) : Bool := p.inits.any fun q => isFile (t.entry q)

theorem blocked_eq_false : t.blocked p = false ↔ ∀ q, q <+: p → isFile (t.entry q) = false := by
  simp [blocked, List.mem_inits]

variable [DecidableEq ν]

/-- `mkdir(parents=True, exist_ok=True)`. -/
def mkdirs (p : List ν) : Option (Tree ν β) :=
  if h : t.blocked p = false then
    some
      { entry := fun q => if q.isPrefixOf p && (t.entry q).isNone then some .dir else t.entry q
        root := by simp [t.root]
        closed := by
          intro q x hx
          by_cases hnew : q.isPrefixOf p = true ∧ (t.entry q).isNone = true
          · simp [hnew.1, hnew.2]
          · rw [if_neg (by simpa using hnew)]
            by_cases hold : t.entry (q ++ [x]) = none
            · have hpre : (q ++ [x]).isPrefixOf p = true := by
                by_contra hpre
                simp [hpre, hold] at hx
              have hq : q <+: p :=
                (List.prefix_append q [x]).trans (List.isPrefixOf_iff_prefix.mp hpre)
              refine (not_isFile (t.blocked_eq_false.mp h q hq)).resolve_left fun hnone => ?_
              exact hnew ⟨List.isPrefixOf_iff_prefix.mpr hq, by simp [hnone]⟩
            · exact t.closed q x hold }
  else none

/-- Opening a file for writing, and writing it. -/
def write (p : List ν) (data : β) : Option (Tree ν β) :=
  if h : isDir (t.entry p.dropLast) = true ∧ isDir (t.entry p) = false then
    some
      { entry := Function.update t.entry p (some (.file data))
        root := by
          have hne : ([] : List ν) ≠ p := by
            rintro rfl
            simp [t.root, isDir] at h
          rw [Function.update_of_ne hne, t.root]
        closed := by
          intro q x hx
          have hq : q ≠ p := by
            rintro rfl
            have hold : t.entry (q ++ [x]) ≠ none := by
              rwa [Function.update_of_ne (by simp)] at hx
            simp [t.closed q x hold, isDir] at h
          rw [Function.update_of_ne hq]
          by_cases hp : q ++ [x] = p
          · subst hp
            have hparent := h.1
            rw [List.dropLast_concat] at hparent
            exact isDir_iff.mp hparent
          · rw [Function.update_of_ne hp] at hx
            exact t.closed q x hx }
  else none

/-- What could not be removed keeps the directories above it. -/
def stays (stuck : List (List ν)) (q : List ν) : Bool :=
  stuck.any fun s => q.isPrefixOf s && (t.entry s).isSome

/-- `rmtree(p, ignore_errors=True)`, where `stuck` cannot be removed. -/
def rmtree (p : List ν) (stuck : List (List ν)) : Tree ν β :=
  if isDir (t.entry p) then
    { entry := fun q =>
        if p.isPrefixOf q && !q.isEmpty && !t.stays stuck q then none else t.entry q
      root := by simp [t.root]
      closed := by
        intro q x hx
        have hold : t.entry (q ++ [x]) ≠ none := by
          intro hnone
          simp [hnone] at hx
        by_cases hgone : p.isPrefixOf q = true ∧ q.isEmpty = false ∧ t.stays stuck q = false
        · -- then what lies in it has gone as well
          have hpre : p.isPrefixOf (q ++ [x]) = true := List.isPrefixOf_iff_prefix.mpr
            ((List.isPrefixOf_iff_prefix.mp hgone.1).trans (List.prefix_append q [x]))
          have hstays : t.stays stuck (q ++ [x]) = false := by
            have hnone := hgone.2.2
            simp only [stays, List.any_eq_false, Bool.and_eq_true, not_and] at hnone ⊢
            intro s hs hqs
            exact hnone s hs (List.isPrefixOf_iff_prefix.mpr
              ((List.prefix_append q [x]).trans (List.isPrefixOf_iff_prefix.mp hqs)))
          simp [hpre, hstays] at hx
        · rw [if_neg (by simpa [and_assoc] using hgone)]
          exact t.closed q x hold }
  else t

/-! ## 3. What they leave -/

variable {t} {t' : Tree ν β} {stuck : List (List ν)} {data : β}

theorem mkdirs_entry (h : t.mkdirs p = some t') (q : List ν) :
    t'.entry q = if q <+: p ∧ t.entry q = none then some .dir else t.entry q := by
  unfold mkdirs at h
  split at h
  · obtain rfl := Option.some.inj h
    by_cases hq : q <+: p ∧ t.entry q = none
    · simp [hq]
    · simp only [if_neg hq]
      refine if_neg fun hnew => hq ?_
      simpa using hnew
  · cases h

theorem mkdirs_isSome (h : ∀ q, q <+: p → t.entry q = none ∨ t.entry q = some .dir) :
    ∃ t', t.mkdirs p = some t' := by
  have hfree : t.blocked p = false := by
    refine t.blocked_eq_false.mpr fun q hq => ?_
    rcases h q hq with hnone | hdir
    · rw [hnone]
      rfl
    · rw [hdir]
      rfl
  exact ⟨_, dif_pos hfree⟩

theorem mkdirs_read (h : t.mkdirs p = some t') (q : List ν) : t'.read q = t.read q := by
  rw [read, mkdirs_entry h]
  split
  · rename_i hq
    rw [read, hq.2]
    rfl
  · rfl

theorem mkdirs_dir (h : t.mkdirs p = some t') : t'.entry p = some .dir := by
  rw [mkdirs_entry h]
  split
  · rfl
  · rename_i hsome
    unfold mkdirs at h
    split at h
    · rename_i hfree
      exact (not_isFile (t.blocked_eq_false.mp hfree p List.prefix_rfl)).resolve_left
        fun hnone => hsome ⟨List.prefix_rfl, hnone⟩
    · cases h

theorem write_entry (h : t.write p data = some t') :
    t'.entry = Function.update t.entry p (some (.file data)) := by
  unfold write at h
  split at h
  · obtain rfl := Option.some.inj h
    rfl
  · cases h

theorem write_isSome (hparent : t.entry p.dropLast = some .dir) (hp : t.entry p ≠ some .dir)
    (data : β) : ∃ t', t.write p data = some t' := by
  have hfile : isDir (t.entry p) = false := by
    rw [← Bool.not_eq_true, isDir_iff]
    exact hp
  exact ⟨_, dif_pos ⟨isDir_iff.mpr hparent, hfile⟩⟩

theorem write_read (h : t.write p data = some t') (q : List ν) :
    t'.read q = if q = p then some data else t.read q := by
  rw [read, write_entry h]
  by_cases hq : q = p
  · subst hq
    simp [data?]
  · rw [Function.update_of_ne hq, if_neg hq]
    rfl

theorem rmtree_entry (hdir : t.entry p = some .dir) (q : List ν) :
    (t.rmtree p stuck).entry q =
      if p <+: q ∧ q ≠ [] ∧ t.stays stuck q = false then none else t.entry q := by
  unfold rmtree
  rw [if_pos (isDir_iff.mpr hdir)]
  by_cases hq : p <+: q ∧ q ≠ [] ∧ t.stays stuck q = false
  · simp [hq]
  · rw [if_neg hq]
    refine if_neg fun hgone => hq ?_
    simpa [and_assoc] using hgone

theorem rmtree_of_not_dir (h : t.entry p ≠ some .dir) : t.rmtree p stuck = t :=
  if_neg fun hdir => h (isDir_iff.mp hdir)

/-! ## 4. What is outside of a directory -/

/-- At every path outside of `d` there is what was there, except that missing directories above
`d` have been made. -/
def Confined (d : List ν) (t t' : Tree ν β) : Prop :=
  ∀ q, d <+: q ∨ t'.entry q = t.entry q ∨
    (q <+: d ∧ t.entry q = none ∧ t'.entry q = some .dir)

variable {d : List ν} {t'' : Tree ν β}

omit [DecidableEq ν] in
theorem Confined.refl (d : List ν) (t : Tree ν β) : Confined d t t := fun _ => .inr (.inl rfl)

omit [DecidableEq ν] in
theorem Confined.trans (h : Confined d t t') (h' : Confined d t' t'') : Confined d t t'' := by
  intro q
  rcases h q with hin | hsame | ⟨hq, hnone, hdir⟩
  · exact .inl hin
  · rcases h' q with hin | hsame' | ⟨hq, hnone, hdir⟩
    · exact .inl hin
    · exact .inr (.inl (hsame'.trans hsame))
    · exact .inr (.inr ⟨hq, hsame ▸ hnone, hdir⟩)
  · rcases h' q with hin | hsame' | ⟨-, hnone', -⟩
    · exact .inl hin
    · exact .inr (.inr ⟨hq, hnone, hsame'.trans hdir⟩)
    · cases hdir.symm.trans hnone'

/-- Directories on the way to a path below `d`. -/
theorem confined_mkdirs {path : List ν} (hd : d <+: path) (hp : p <+: path)
    (h : t.mkdirs p = some t') : Confined d t t' := by
  intro q
  rw [mkdirs_entry h]
  by_cases hq : q <+: p ∧ t.entry q = none
  · rcases List.prefix_or_prefix_of_prefix (hq.1.trans hp) hd with hqd | hdq
    · exact .inr (.inr ⟨hqd, hq.2, if_pos hq⟩)
    · exact .inl hdq
  · exact .inr (.inl (if_neg hq))

theorem confined_write (hd : d <+: p) (h : t.write p data = some t') : Confined d t t' := by
  intro q
  by_cases hq : q = p
  · subst hq
    exact .inl hd
  · rw [write_entry h, Function.update_of_ne hq]
    exact .inr (.inl rfl)

theorem confined_rmtree (hd : d <+: p) : Confined d t (t.rmtree p stuck) := by
  by_cases hdir : t.entry p = some .dir
  · intro q
    rw [rmtree_entry hdir]
    by_cases hq : p <+: q ∧ q ≠ [] ∧ t.stays stuck q = false
    · exact .inl (hd.trans hq.1)
    · exact .inr (.inl (if_neg hq))
  · rw [rmtree_of_not_dir hdir]
    exact .refl d t

end Tree

end FileTree
