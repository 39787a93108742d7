/-
# The storage on the local file system

`LocalFileStorage` (`infrastructure/storage/local_fs.py`): a key is a path below a root.  Nothing
is a link, so `Path.resolve` only takes the parts `..` off.  The operating system may fail at any
point of an operation, with some of the directories made or a part of the file written; `rmtree`
ignores what it cannot remove.

* `exec_confined`: whatever the keys, nothing outside of the root changes;
* `refines`: on the keys of documents it is the storage that the services are written against.
-/
import AtlasKnowledge.Lib.FileTree
import AtlasKnowledge.Services.UploadInvariant

namespace AtlasKnowledge.LocalFs

open FileTree
open Services (storagePrefix)
open Services.Upload (Storage)
open Services.UploadSystem (normalizedKey id_of_front)

/-! ## 1. Keys and paths -/

/-- An absolute path, as its parts. -/
abbrev Path : Type := List Text

/-- `path.parents`: the proper prefixes. -/
def parents (path : Path) : List Path := if path = [] then [] else path.dropLast.inits

/-- One part of a path that is resolved. -/
def resolvePart (path : Path) (part : Text) : Path :=
  if part = [] ∨ part = ['.'] then path
  else if part = ['.', '.'] then path.dropLast
  else path ++ [part]

/-- `(root / key).resolve()`: an absolute key replaces the root. -/
def resolved (root : Path) (key : Text) : Path :=
  let parts := key.splitOn '/'
  parts.foldl resolvePart (if key.head? = some '/' then [] else root)

/-- `_resolve`; `none` is a `ValueError`, which a null character raises as well. -/
def resolve (root : Path) (key : Text) : Option Path :=
  if '\x00' ∈ key then none
  else
    let path := resolved root key
    if path ≠ root ∧ root ∉ parents path then none else some path

/-! ## 2. The operations -/

/-- Where the operating system fails. -/
inductive Fault where
  | none
  /-- After the first directories. -/
  | mkdir (made : Nat)
  | opening
  /-- After the first bytes. -/
  | writing (written : Nat)
  deriving DecidableEq, Repr

/-- What an operation returns or raises. -/
inductive Reply where
  | done
  | data (data : Bytes)
  | valueError
  | osError
  deriving DecidableEq, Repr

/-- The operations of the storage, with what goes wrong in them. -/
inductive Op where
  | put (key : Text) (data : Bytes) (fault : Fault)
  | get (key : Text) (fails : Bool)
  | deletePrefix (front : Text) (stuck : List Path)
  deriving DecidableEq, Repr

/-- The file tree. -/
abbrev Files : Type := Tree Text Bytes

/-- An operation of the tree, which leaves it as it is if it fails. -/
def attempt (files : Files) (o : Option Files) : Reply × Files :=
  match o with
  | some files' => (.done, files')
  | none => (.osError, files)

/-- `_write`. -/
def write (files : Files) (path : Path) (data : Bytes) : Fault → Reply × Files
  | .mkdir made => (.osError, (attempt files (files.mkdirs (path.dropLast.take made))).2)
  | fault =>
    match files.mkdirs path.dropLast with
    | none => (.osError, files)
    | some files =>
      match fault with
      | .opening => (.osError, files)
      | .writing written => (.osError, (attempt files (files.write path (data.take written))).2)
      | _ => attempt files (files.write path data)

/-- One operation. -/
def exec (root : Path) (files : Files) : Op → Reply × Files
  | .put key data fault =>
    match resolve root key with
    | none => (.valueError, files)
    | some path => write files path data fault
  | .get key fails =>
    match resolve root key with
    | none => (.valueError, files)
    | some path =>
      match if fails then none else files.read path with
      | some data => (.data data, files)
      | none => (.osError, files)
  | .deletePrefix front stuck =>
    match resolve root front with
    | none => (.valueError, files)
    | some path => (.done, files.rmtree path stuck)

/-- A list of operations, and their replies. -/
def all {σ ο : Type*} (exec : σ → ο → Reply × σ) : σ → List ο → List Reply × σ
  | s, [] => ([], s)
  | s, op :: ops =>
    let first := exec s op
    let rest := all exec first.2 ops
    (first.1 :: rest.1, rest.2)

/-! ## 3. Nothing outside of the root -/

variable {root path : Path} {files files' : Files} {key : Text} {op : Op}

theorem mem_parents : root ∈ parents path ↔ root <+: path ∧ root ≠ path := by
  rcases List.eq_nil_or_concat path with rfl | ⟨front, x, rfl⟩
  · simp [parents]
  · have hparents : parents (front ++ [x]) = front.inits := by simp [parents]
    rw [List.concat_eq_append, hparents, List.mem_inits, List.prefix_concat_iff]
    constructor
    · intro h
      refine ⟨.inr h, ?_⟩
      rintro rfl
      exact absurd h.length_le (by simp)
    · rintro ⟨heq | h, hne⟩
      · exact absurd heq hne
      · exact h

/-- **A path that `_resolve` returns is the root or below it.** -/
theorem resolve_below (h : resolve root key = some path) : root <+: path := by
  unfold resolve at h
  split at h
  · cases h
  · simp only at h
    split at h
    · cases h
    · rename_i hin
      obtain rfl := Option.some.inj h
      by_cases hroot : resolved root key = root
      · rw [hroot]
      · by_contra hnot
        exact hin ⟨hroot, fun hmem => hnot (mem_parents.mp hmem).1⟩

theorem write_confined (hpath : root <+: path) (data : Bytes) (fault : Fault) :
    Tree.Confined root files (write files path data fault).2 := by
  have hdirs : ∀ {p : Path} {files₁}, p <+: path → files.mkdirs p = some files₁ →
      Tree.Confined root files files₁ := fun hp h => Tree.confined_mkdirs hpath hp h
  have hparent : path.dropLast <+: path := List.dropLast_prefix path
  have hwrite : ∀ {files₁ : Files} (data : Bytes), Tree.Confined root files files₁ →
      Tree.Confined root files (attempt files₁ (files₁.write path data)).2 := by
    intro files₁ data h
    unfold attempt
    split
    · rename_i files₂ hfiles
      exact h.trans (Tree.confined_write hpath hfiles)
    · exact h
  unfold write
  split
  · rename_i made
    unfold attempt
    split
    · rename_i files₁ hfiles
      exact hdirs ((List.take_prefix _ _).trans hparent) hfiles
    · exact .refl root files
  · split
    · exact .refl root files
    · rename_i files₁ hfiles
      have h := hdirs hparent hfiles
      split
      · exact h
      · exact hwrite _ h
      · exact hwrite _ h

theorem exec_confined (root : Path) (files : Files) (op : Op) :
    Tree.Confined root files (exec root files op).2 := by
  cases op with
  | put key data fault =>
    unfold exec
    simp only
    split
    · exact .refl root files
    · rename_i path hpath
      exact write_confined (resolve_below hpath) data fault
  | get key fails =>
    unfold exec
    simp only
    split
    · exact .refl root files
    · split <;> exact .refl root files
  | deletePrefix front stuck =>
    unfold exec
    simp only
    split
    · exact .refl root files
    · rename_i path hpath
      exact Tree.confined_rmtree (resolve_below hpath)

/-- **No key leads out of the root.** -/
theorem all_confined (root : Path) (ops : List Op) (files : Files) :
    Tree.Confined root files (all (exec root) files ops).2 := by
  induction ops generalizing files with
  | nil => exact .refl root files
  | cons op ops ih => exact (exec_confined root files op).trans (ih _)

/-! ## 4. The keys of documents -/

/-- A part of a path that is a name. -/
structure Proper (name : Text) : Prop where
  ne_nil : name ≠ []
  no_slash : '/' ∉ name
  no_null : '\x00' ∉ name
  ne_dot : name ≠ ['.']
  ne_dots : name ≠ ['.', '.']

/-- The key of a document's object. -/
def docKey (id : Uuid) (name : Text) : Text := storagePrefix id ++ name

/-- The first part of these keys. -/
def documents : Text := "documents".toList

/-- The directory of a document. -/
def docDir (root : Path) (id : Uuid) : Path := root ++ [documents] ++ [id.text]

/-- Where the object is. -/
def docPath (root : Path) (id : Uuid) (name : Text) : Path := docDir root id ++ [name]

variable {id id' : Uuid} {name name' : Text}

theorem documents_eq : documents = ['d', 'o', 'c', 'u', 'm', 'e', 'n', 't', 's'] := by decide

theorem proper_documents : Proper documents := by
  rw [documents_eq]
  constructor <;> decide

theorem proper_text (id : Uuid) : Proper id.text := by
  have hchar : ∀ c ∈ id.text, c ≠ '/' ∧ c ≠ '\x00' ∧ c ≠ '.' :=
    Uuid.forall_mem_text _ (by decide) (by decide) id
  have hne : id.text ≠ [] := by
    intro hnil
    have hlength := Services.UploadSystem.length_text id
    rw [hnil] at hlength
    cases hlength
  refine ⟨hne, fun h => (hchar _ h).1 rfl, fun h => (hchar _ h).2.1 rfl, ?_, ?_⟩
  · intro h
    exact (hchar '.' (by simp [h])).2.2 rfl
  · intro h
    exact (hchar '.' (by simp [h])).2.2 rfl

theorem proper_normalized : Proper "normalized.json".toList := by constructor <;> decide

/-- Behind `original` there may be any suffix of a name. -/
theorem proper_original {suffix : Text} (hslash : '/' ∉ suffix) (hnull : '\x00' ∉ suffix) :
    Proper ("original".toList ++ suffix) := by
  have horiginal : "original".toList = 'o' :: "riginal".toList := by decide
  have hclean : '/' ∉ "original".toList ∧ '\x00' ∉ "original".toList := by decide
  refine ⟨?_, ?_, ?_, ?_, ?_⟩
  · rw [horiginal]
    exact List.cons_ne_nil _ _
  · exact fun h => (List.mem_append.mp h).elim hclean.1 hslash
  · exact fun h => (List.mem_append.mp h).elim hclean.2 hnull
  · rw [horiginal]
    exact fun h => absurd (List.cons.inj h).1 (by decide)
  · rw [horiginal]
    exact fun h => absurd (List.cons.inj h).1 (by decide)

/-- The name of a path is one of its parts. -/
theorem mem_pathName {text : Text} {c : Char} (h : c ∈ Services.pathName text) :
    c ≠ '/' ∧ c ∈ text := by
  unfold Services.pathName at h
  set parts := (text.splitOn '/').filter fun part => part ≠ [] ∧ part ≠ ['.'] with hparts
  have hmem : parts.getLastD [] ∈ text.splitOn '/' := by
    rcases List.eq_nil_or_concat parts with hnil | ⟨front, last, hconcat⟩
    · rw [hnil] at h
      cases h
    · have hlast : last ∈ parts := by simp [hconcat]
      rw [hconcat, List.concat_eq_append, List.getLastD_concat]
      exact (List.mem_filter.mp (hparts ▸ hlast)).1
  refine ⟨?_, Str.mem_of_mem_splitOnP _ text _ hmem c h⟩
  rintro rfl
  exact absurd (Str.forall_mem_splitOnP _ text _ hmem '/' h) (by decide)

/-- The suffix is a part of the name. -/
theorem mem_pathSuffix {text : Text} {c : Char} (h : c ∈ Services.pathSuffix text) :
    c ≠ '/' ∧ (c = '.' ∨ c ∈ text) := by
  unfold Services.pathSuffix at h
  simp only at h
  split at h
  · rcases List.mem_cons.mp h with rfl | hext
    · exact ⟨by decide, .inl rfl⟩
    · rw [List.mem_reverse] at hext
      have hname := mem_pathName (List.mem_reverse.mp ((List.takeWhile_prefix _).subset hext))
      exact ⟨hname.1, .inr hname.2⟩
  · cases h

/-- **The key of an uploaded file is a key of its document**, if its name has no null character and
`str.lower` puts in neither that nor a slash. -/
theorem storageKey_docKey (env : Services.Env) (call : Services.Upload.Call)
    (hlower : ∀ text c, c ∈ env.lower text → c = '/' ∨ c = '\x00' → c ∈ text)
    (hnull : '\x00' ∉ Services.Upload.safeName call) :
    ∃ name, Proper name ∧
      Services.Upload.storageKey env call = docKey call.documentId name := by
  have hslash : '/' ∉ env.lower (Services.pathSuffix (Services.Upload.safeName call)) := fun h =>
    (mem_pathSuffix (hlower _ _ h (.inl rfl))).1 rfl
  have hnone : '\x00' ∉ env.lower (Services.pathSuffix (Services.Upload.safeName call)) := by
    intro h
    rcases (mem_pathSuffix (hlower _ _ h (.inr rfl))).2 with hdot | hmem
    · cases hdot
    · exact hnull hmem
  refine ⟨_, proper_original hslash hnone, ?_⟩
  rw [Services.Upload.storageKey, docKey, List.append_assoc]

theorem resolvePart_proper (h : Proper name) (path : Path) :
    resolvePart path name = path ++ [name] := by
  rw [resolvePart, if_neg (not_or.mpr ⟨h.ne_nil, h.ne_dot⟩), if_neg h.ne_dots]

theorem storagePrefix_append (id : Uuid) (rest : Text) :
    storagePrefix id ++ rest = documents ++ '/' :: (id.text ++ '/' :: rest) := by
  have hfront : "documents/".toList = documents ++ ['/'] := by decide
  unfold storagePrefix
  simp only [hfront, List.append_assoc, List.cons_append, List.nil_append]

/-- A key with the prefix of a document is taken apart there. -/
theorem resolved_storagePrefix (root : Path) (id : Uuid) {rest : Text} (hrest : '/' ∉ rest) :
    resolved root (storagePrefix id ++ rest) = resolvePart (docDir root id) rest := by
  have hsplit : (storagePrefix id ++ rest).splitOn '/' = [documents, id.text, rest] := by
    rw [storagePrefix_append, List.splitOn_append_cons_self_of_not_mem proper_documents.no_slash,
      List.splitOn_append_cons_self_of_not_mem (proper_text id).no_slash,
      List.splitOn_eq_singleton hrest]
  have hhead : ¬ (storagePrefix id ++ rest).head? = some '/' := by
    rw [storagePrefix_append, documents_eq]
    exact fun h => absurd (Option.some.inj h) (by decide)
  simp only [resolved, hsplit, if_neg hhead, List.foldl_cons, List.foldl_nil,
    resolvePart_proper proper_documents, resolvePart_proper (proper_text id)]
  rfl

theorem resolve_below_root {rest : Text} (hnull : '\x00' ∉ rest)
    (hbelow : root <+: resolved root (storagePrefix id ++ rest)) :
    resolve root (storagePrefix id ++ rest) = some (resolved root (storagePrefix id ++ rest)) := by
  have hfree : '\x00' ∉ storagePrefix id ++ rest := by
    rw [storagePrefix_append]
    have hdocuments := proper_documents.no_null
    have htext := (proper_text id).no_null
    simp [hdocuments, htext, hnull]
  unfold resolve
  rw [if_neg hfree]
  refine if_neg ?_
  rintro ⟨hne, hnot⟩
  exact hnot (mem_parents.mpr ⟨hbelow, Ne.symm hne⟩)

theorem root_prefix_docDir (root : Path) (id : Uuid) : root <+: docDir root id :=
  ⟨[documents, id.text], by simp [docDir]⟩

theorem resolve_docKey (root : Path) (id : Uuid) (h : Proper name) :
    resolve root (docKey id name) = some (docPath root id name) := by
  have hresolved := resolved_storagePrefix root id h.no_slash
  rw [resolvePart_proper h] at hresolved
  rw [docKey, resolve_below_root h.no_null, hresolved]
  · rfl
  · rw [hresolved]
    exact (root_prefix_docDir root id).trans (List.prefix_append _ _)

theorem resolve_storagePrefix (root : Path) (id : Uuid) :
    resolve root (storagePrefix id) = some (docDir root id) := by
  have hresolved : resolved root (storagePrefix id ++ []) = docDir root id :=
    resolved_storagePrefix root id List.not_mem_nil
  have hbelow : resolve root (storagePrefix id ++ []) = some (docDir root id) := by
    rw [resolve_below_root List.not_mem_nil, hresolved]
    rw [hresolved]
    exact root_prefix_docDir root id
  rwa [List.append_nil] at hbelow

theorem docKey_inj : docKey id name = docKey id' name' ↔ id = id' ∧ name = name' := by
  constructor
  · intro h
    have hid : id = id' := id_of_front (List.prefix_append _ _)
      (h ▸ List.prefix_append _ _ : storagePrefix id' <+: docKey id name)
    subst hid
    exact ⟨rfl, List.append_cancel_left h⟩
  · rintro ⟨rfl, rfl⟩
    rfl

theorem text_inj (h : id.text = id'.text) : id = id' := by
  have hread := Uuid.ofText_text id
  rw [h, Uuid.ofText_text] at hread
  exact (Option.some.inj hread).symm

theorem docDir_prefix_docPath : docDir root id <+: docPath root id' name ↔ id = id' := by
  constructor
  · intro h
    have hpre : docDir root id <+: docDir root id' :=
      List.prefix_of_prefix_length_le h (List.prefix_append _ _) (by simp [docDir])
    have heq := hpre.eq_of_length (by simp [docDir])
    refine text_inj ?_
    simpa [docDir] using heq
  · rintro rfl
    exact List.prefix_append _ _

theorem docPath_inj : docPath root id name = docPath root id' name' ↔ id = id' ∧ name = name' := by
  constructor
  · intro h
    have hid : id = id' := docDir_prefix_docPath.mp
      (h ▸ List.prefix_append _ _ : docDir root id <+: docPath root id' name')
    subst hid
    exact ⟨rfl, by simpa using List.append_cancel_left h⟩
  · rintro ⟨rfl, rfl⟩
    rfl

/-! ## 5. The storage of the services -/

/-- An operation on the files of a document. -/
inductive DocOp where
  | put (id : Uuid) (name : Text) (data : Bytes) (fault : Fault)
  | get (id : Uuid) (name : Text) (fails : Bool)
  /-- `stuck` are the files that cannot be removed. -/
  | deletePrefix (id : Uuid) (stuck : List Text)

/-- The operation, by its key. -/
def DocOp.toOp (root : Path) : DocOp → Op
  | .put id name data fault => .put (docKey id name) data fault
  | .get id name fails => .get (docKey id name) fails
  | .deletePrefix id stuck => .deletePrefix (storagePrefix id) (stuck.map (docPath root id))

def DocOp.Proper : DocOp → Prop
  | .put _ name _ _ => LocalFs.Proper name
  | .get _ name _ => LocalFs.Proper name
  | .deletePrefix _ _ => True

/-- What the services expect of their storage: a `put` that fails leaves the object as it was, or
a part of the new one, and `delete_prefix` what it could not remove. -/
def serve (s : Storage) : DocOp → Reply × Storage
  | .put id name data .none => (.done, s.put (docKey id name) data)
  | .put id name data (.writing written) => (.osError, s.put (docKey id name) (data.take written))
  | .put _ _ _ _ => (.osError, s)
  | .get id name fails =>
    match if fails then none else s (docKey id name) with
    | some data => (.data data, s)
    | none => (.osError, s)
  | .deletePrefix id stuck =>
    (.done, s.deletePrefixBut (storagePrefix id) (stuck.map (docKey id)))

/-- Directories where the documents' files are to be. -/
structure Layout (root : Path) (files : Files) : Prop where
  above : ∀ q, q <+: root ++ [documents] → files.entry q = none ∨ files.entry q = some .dir
  dirs : ∀ id, files.entry (docDir root id) = none ∨ files.entry (docDir root id) = some .dir
  names : ∀ id name, files.entry (docPath root id name) ≠ some .dir

/-- The tree holds the objects of the storage. -/
structure Holds (root : Path) (files : Files) (s : Storage) : Prop where
  layout : Layout root files
  objects : ∀ id name, Proper name → files.read (docPath root id name) = s (docKey id name)

variable {s : Storage} {data : Bytes}

theorem length_docDir (root : Path) (id : Uuid) : (docDir root id).length = root.length + 2 := by
  simp [docDir]

theorem length_docPath (root : Path) (id : Uuid) (name : Text) :
    (docPath root id name).length = root.length + 3 := by
  simp [docPath, docDir]

theorem docDir_ne_docPath : docDir root id ≠ docPath root id name := by
  intro heq
  have hlength := congrArg List.length heq
  rw [length_docDir, length_docPath] at hlength
  omega

theorem Layout.way (h : Layout root files) {q : Path} (hq : q <+: docDir root id) :
    files.entry q = none ∨ files.entry q = some .dir := by
  rcases List.prefix_concat_iff.mp hq with rfl | habove
  · exact h.dirs id
  · exact h.above q habove

theorem holds_mkdirs (h : Holds root files s) {p : Path} (hp : p <+: docDir root id)
    (hfiles : files.mkdirs p = some files') : Holds root files' s := by
  have hkept : ∀ q, files.entry q = none ∨ files.entry q = some .dir →
      files'.entry q = none ∨ files'.entry q = some .dir := by
    intro q hq
    rw [Tree.mkdirs_entry hfiles]
    split
    · exact .inr rfl
    · exact hq
  refine ⟨⟨fun q hq => hkept q (h.layout.above q hq), fun id => hkept _ (h.layout.dirs id), ?_⟩, ?_⟩
  · intro id' name
    have hlong : ¬ (docPath root id' name <+: p ∧ files.entry (docPath root id' name) = none) := by
      intro hmade
      have hlength := (hmade.1.trans hp).length_le
      rw [length_docPath, length_docDir] at hlength
      omega
    rw [Tree.mkdirs_entry hfiles, if_neg hlong]
    exact h.layout.names id' name
  · intro id' name hname
    rw [Tree.mkdirs_read hfiles]
    exact h.objects id' name hname

theorem holds_write (h : Holds root files s)
    (hfiles : files.write (docPath root id name) data = some files') :
    Holds root files' (s.put (docKey id name) data) := by
  have hother : ∀ q, q.length ≠ root.length + 3 → files'.entry q = files.entry q := by
    intro q hq
    have hne : q ≠ docPath root id name := by
      rintro rfl
      exact hq (length_docPath root id name)
    rw [Tree.write_entry hfiles, Function.update_of_ne hne]
  refine ⟨⟨?_, ?_, ?_⟩, ?_⟩
  · intro q hq
    rw [hother q]
    · exact h.layout.above q hq
    · have hlength := hq.length_le
      rw [List.length_append, List.length_singleton] at hlength
      omega
  · intro id'
    rw [hother _ (by rw [length_docDir]; omega)]
    exact h.layout.dirs id'
  · intro id' name'
    rw [Tree.write_entry hfiles]
    by_cases hq : docPath root id' name' = docPath root id name
    · rw [hq, Function.update_self]
      simp
    · rw [Function.update_of_ne hq]
      exact h.layout.names id' name'
  · intro id' name' hname
    rw [Tree.write_read hfiles]
    by_cases hq : id' = id ∧ name' = name
    · obtain ⟨rfl, rfl⟩ := hq
      simp [Storage.put]
    · have hpath : docPath root id' name' ≠ docPath root id name := fun heq =>
        hq (docPath_inj.mp heq)
      have hkey : docKey id' name' ≠ docKey id name := fun heq => hq (docKey_inj.mp heq)
      rw [if_neg hpath, Storage.put, Function.update_of_ne hkey]
      exact h.objects id' name' hname

/-- What stays of a document's files are the ones that could not be removed. -/
theorem stays_docPath (stuck : List Text)
    (hthere : files.entry (docPath root id name) ≠ none) :
    files.stays (stuck.map (docPath root id)) (docPath root id name) = true ↔ name ∈ stuck := by
  unfold Tree.stays
  rw [List.any_map, List.any_eq_true]
  constructor
  · rintro ⟨name', hmem, hstays⟩
    simp only [Function.comp_apply, Bool.and_eq_true, List.isPrefixOf_iff_prefix] at hstays
    have heq := hstays.1.eq_of_length (by rw [length_docPath, length_docPath])
    exact (docPath_inj.mp heq).2 ▸ hmem
  · intro hmem
    refine ⟨name, hmem, ?_⟩
    simp only [Function.comp_apply, Bool.and_eq_true, List.isPrefixOf_iff_prefix]
    exact ⟨List.prefix_rfl, Option.isSome_iff_ne_none.mpr hthere⟩

theorem storagePrefix_isPrefixOf :
    (storagePrefix id).isPrefixOf (docKey id' name) = true ↔ id = id' := by
  rw [List.isPrefixOf_iff_prefix]
  constructor
  · exact fun h => id_of_front h (List.prefix_append _ _)
  · rintro rfl
    exact List.prefix_append _ _

theorem mem_stuck {stuck : List Text} :
    docKey id' name ∈ stuck.map (docKey id) ↔ id = id' ∧ name ∈ stuck := by
  rw [List.mem_map]
  constructor
  · rintro ⟨name', hmem, heq⟩
    obtain ⟨rfl, rfl⟩ := docKey_inj.mp heq
    exact ⟨rfl, hmem⟩
  · rintro ⟨rfl, hmem⟩
    exact ⟨name, hmem, rfl⟩

theorem serve_deletePrefix (s : Storage) (stuck : List Text) :
    (serve s (.deletePrefix id stuck)).2 (docKey id' name) =
      if id = id' ∧ name ∉ stuck then none else s (docKey id' name) := by
  have hfront : (storagePrefix id).isPrefixOf (docKey id' name) = true ↔ id = id' :=
    storagePrefix_isPrefixOf
  have hserve : (serve s (.deletePrefix id stuck)).2 (docKey id' name) =
      if docKey id' name ∈ stuck.map (docKey id) then s (docKey id' name)
      else s.deletePrefix (storagePrefix id) (docKey id' name) := rfl
  rw [hserve, Storage.deletePrefix]
  by_cases hmem : docKey id' name ∈ stuck.map (docKey id)
  · have hname := (mem_stuck.mp hmem).2
    rw [if_pos hmem, if_neg fun h => h.2 hname]
  · rw [if_neg hmem]
    by_cases hid : id = id'
    · have hname : name ∉ stuck := fun h => hmem (mem_stuck.mpr ⟨hid, h⟩)
      rw [if_pos (hfront.mpr hid), if_pos ⟨hid, hname⟩]
    · rw [if_neg fun h => hid (hfront.mp h), if_neg fun h => hid h.1]

theorem holds_rmtree (h : Holds root files s) (id : Uuid) (stuck : List Text) :
    Holds root (files.rmtree (docDir root id) (stuck.map (docPath root id)))
      (serve s (.deletePrefix id stuck)).2 := by
  by_cases hdir : files.entry (docDir root id) = some .dir
  · have hkept : ∀ q, files.entry q = none ∨ files.entry q = some .dir →
        (files.rmtree (docDir root id) (stuck.map (docPath root id))).entry q = none ∨
        (files.rmtree (docDir root id) (stuck.map (docPath root id))).entry q = some .dir := by
      intro q hq
      rw [Tree.rmtree_entry hdir]
      split
      · exact .inl rfl
      · exact hq
    refine ⟨⟨fun q hq => hkept q (h.layout.above q hq), fun id => hkept _ (h.layout.dirs id), ?_⟩,
      ?_⟩
    · intro id' name
      rw [Tree.rmtree_entry hdir]
      split
      · simp
      · exact h.layout.names id' name
    · intro id' name hname
      rw [serve_deletePrefix, ← h.objects id' name hname, Tree.read, Tree.read,
        Tree.rmtree_entry hdir]
      by_cases hthere : files.entry (docPath root id' name) = none
      · simp [hthere, data?]
      · by_cases hid : id = id'
        · subst hid
          have hne : docPath root id name ≠ [] := by simp [docPath]
          have hpre : docDir root id <+: docPath root id name := List.prefix_append _ _
          have hstays := stays_docPath stuck hthere
          by_cases hmem : name ∈ stuck
          · rw [if_neg fun hgone => absurd (hstays.mpr hmem) (by rw [hgone.2.2]; simp),
              if_neg fun h => h.2 hmem]
          · have hgone : files.stays (stuck.map (docPath root id)) (docPath root id name) = false :=
              Bool.eq_false_iff.mpr fun h => hmem (hstays.mp h)
            rw [if_pos ⟨hpre, hne, hgone⟩, if_pos ⟨rfl, hmem⟩]
            rfl
        · rw [if_neg fun hgone => hid (docDir_prefix_docPath.mp hgone.1), if_neg fun h => hid h.1]
  · rw [Tree.rmtree_of_not_dir hdir]
    refine ⟨h.layout, fun id' name hname => ?_⟩
    rw [serve_deletePrefix, ← h.objects id' name hname]
    by_cases hid : id = id'
    · subst hid
      have hnone : files.entry (docPath root id name) = none :=
        files.none_of_prefix (List.prefix_append _ _) docDir_ne_docPath hdir
      simp [Tree.read, hnone, data?]
    · rw [if_neg fun h => hid h.1]

/-- `_write`, with whatever fails. -/
theorem holds_put (h : Holds root files s) (id : Uuid) (name : Text) (data : Bytes)
    (fault : Fault) :
    (write files (docPath root id name) data fault).1 = (serve s (.put id name data fault)).1 ∧
      Holds root (write files (docPath root id name) data fault).2
        (serve s (.put id name data fault)).2 := by
  have hparent : (docPath root id name).dropLast = docDir root id := List.dropLast_concat
  obtain ⟨files₁, hdirs⟩ := Tree.mkdirs_isSome fun q (hq : q <+: docDir root id) => h.layout.way hq
  have h₁ := holds_mkdirs h List.prefix_rfl hdirs
  have hwrite : ∀ data, ∃ files₂, files₁.write (docPath root id name) data = some files₂ ∧
      Holds root files₂ (s.put (docKey id name) data) := by
    intro data
    obtain ⟨files₂, hfiles⟩ := Tree.write_isSome (hparent ▸ Tree.mkdirs_dir hdirs)
      (h₁.layout.names id name) data
    exact ⟨files₂, hfiles, holds_write h₁ hfiles⟩
  unfold write
  rw [hparent, hdirs]
  cases fault with
  | none =>
    obtain ⟨files₂, hfiles, h₂⟩ := hwrite data
    simp only [hfiles, attempt]
    exact ⟨rfl, h₂⟩
  | opening => exact ⟨rfl, h₁⟩
  | writing written =>
    obtain ⟨files₂, hfiles, h₂⟩ := hwrite (data.take written)
    simp only [hfiles, attempt]
    exact ⟨rfl, h₂⟩
  | mkdir made =>
    refine ⟨rfl, ?_⟩
    simp only [attempt]
    split
    · rename_i files₂ hfiles
      exact holds_mkdirs h (List.take_prefix _ _) hfiles
    · exact h

/-- **One operation.** -/
theorem refines_step (h : Holds root files s) (op : DocOp) (hop : op.Proper) :
    (exec root files (op.toOp root)).1 = (serve s op).1 ∧
      Holds root (exec root files (op.toOp root)).2 (serve s op).2 := by
  cases op with
  | put id name data fault =>
    simp only [DocOp.toOp, exec, resolve_docKey root id hop]
    exact holds_put h id name data fault
  | get id name fails =>
    simp only [DocOp.toOp, exec, resolve_docKey root id hop, h.objects id name hop, serve]
    split <;> exact ⟨rfl, h⟩
  | deletePrefix id stuck =>
    simp only [DocOp.toOp, exec, resolve_storagePrefix]
    exact ⟨rfl, holds_rmtree h id stuck⟩

/-- A simulation of one operation by another one is a simulation of lists of them. -/
theorem all_map {σ τ ο ο' : Type*} {f : ο' → ο} {exec : σ → ο → Reply × σ}
    {exec' : τ → ο' → Reply × τ} {R : σ → τ → Prop} {P : ο' → Prop}
    (hstep : ∀ s t op, R s t → P op →
      (exec s (f op)).1 = (exec' t op).1 ∧ R (exec s (f op)).2 (exec' t op).2)
    (ops : List ο') {s : σ} {t : τ} (h : R s t) (hops : ∀ op ∈ ops, P op) :
    (all exec s (ops.map f)).1 = (all exec' t ops).1 ∧
      R (all exec s (ops.map f)).2 (all exec' t ops).2 := by
  induction ops generalizing s t with
  | nil => exact ⟨rfl, h⟩
  | cons op ops ih =>
    obtain ⟨hreply, hnext⟩ := hstep s t op h (hops op List.mem_cons_self)
    obtain ⟨hreplies, hlast⟩ := ih hnext fun op' hop' => hops op' (List.mem_cons_of_mem op hop')
    refine ⟨?_, hlast⟩
    simp only [List.map_cons, all, hreply, hreplies]

/-- A root that is not there, or an empty one, holds no objects. -/
theorem holds_empty (habove : ∀ q, q <+: root → files.entry q = none ∨ files.entry q = some .dir)
    (hbelow : ∀ q, root <+: q → q ≠ root → files.entry q = none) :
    Holds root files fun _ => none := by
  have hdocument : ∀ q, root <+: q → root.length < q.length → files.entry q = none := by
    intro q hq hlength
    refine hbelow q hq ?_
    rintro rfl
    exact absurd hlength (Nat.lt_irrefl _)
  have hdir : ∀ id, files.entry (docDir root id) = none := fun id =>
    hdocument _ (root_prefix_docDir root id) (by rw [length_docDir]; omega)
  have hname : ∀ id name, files.entry (docPath root id name) = none := fun id name =>
    hdocument _ ((root_prefix_docDir root id).trans (List.prefix_append _ _))
      (by rw [length_docPath]; omega)
  refine ⟨⟨?_, fun id => .inl (hdir id), fun id name => by simp [hname id name]⟩, ?_⟩
  · intro q hq
    rcases List.prefix_concat_iff.mp hq with rfl | hq
    · exact .inl (hdocument _ (List.prefix_append _ _) (by simp))
    · exact habove q hq
  · intro id name _
    simp [Tree.read, hname id name, data?]

/-- **The local file system is the storage of the services.**  Whatever fails on the way, the
operations on the files of documents give the same replies as on the storage that maps keys to
objects, and leave the same objects; and nothing outside of the root has changed. -/
theorem refines (root : Path) (files : Files) (s : Storage) (ops : List DocOp)
    (h : Holds root files s) (hops : ∀ op ∈ ops, op.Proper) :
    (all (exec root) files (ops.map (DocOp.toOp root))).1 = (all serve s ops).1 ∧
      Holds root (all (exec root) files (ops.map (DocOp.toOp root))).2 (all serve s ops).2 ∧
      Tree.Confined root files (all (exec root) files (ops.map (DocOp.toOp root))).2 := by
  have hstep : ∀ files s (op : DocOp), Holds root files s → op.Proper →
      (exec root files (op.toOp root)).1 = (serve s op).1 ∧
        Holds root (exec root files (op.toOp root)).2 (serve s op).2 :=
    fun _ _ op h hop => refines_step h op hop
  obtain ⟨hreplies, hlast⟩ := all_map hstep ops h hops
  exact ⟨hreplies, hlast, all_confined root _ files⟩

/-- The file system with nothing in it. -/
def emptyFiles : Files where
  entry := fun q => if q = [] then some .dir else none
  root := rfl
  closed := fun p x h => absurd (if_neg (by simp)) h

/-- Two documents; a file of the first is written in part and again, and then it is purged. -/
def sampleOps : List DocOp :=
  [.put 1 "original.txt".toList [1, 2, 3] (.writing 1),
    .put 1 "original.txt".toList [1, 2, 3] .none,
    .put 2 "original.txt".toList [4] .none, .deletePrefix 1 [],
    .get 1 "original.txt".toList false, .get 2 "original.txt".toList false]

theorem refines_purged :
    (all (exec ["srv".toList]) emptyFiles (sampleOps.map (DocOp.toOp ["srv".toList]))).1 =
      [.osError, .done, .done, .done, .osError, .data [4]] := by
  have hholds : Holds ["srv".toList] emptyFiles fun _ => none := by
    refine holds_empty (fun q _ => ?_) fun q hq hne => ?_
    · by_cases hnil : q = []
      · exact .inr (if_pos hnil)
      · exact .inl (if_neg hnil)
    · refine if_neg ?_
      rintro rfl
      exact absurd hq.length_le (by decide)
  have hname : Proper "original.txt".toList := by constructor <;> decide
  have hproper : ∀ op ∈ sampleOps, op.Proper := by
    simp only [sampleOps, List.forall_mem_cons]
    exact ⟨hname, hname, hname, trivial, hname, hname, by simp⟩
  rw [(refines _ _ _ _ hholds hproper).1]
  decide

end AtlasKnowledge.LocalFs
