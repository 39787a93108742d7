/-
# What a failed upload leaves in the storage

`DocumentService.upload` writes the file before it inserts the row.  Here everything outside of the
service answers as it likes, at each point of the call: a query with any row or none, any statement
with an exception, the storage with a file that is written in part.  The storage itself is kept,
and whether a row for the new document was committed.

* `run_storeNew`: what is in the storage when a new file was to be stored;
* `upload_leaves_nothing`: exactly when a call without a committed row leaves the storage as it
  was.
-/
import AtlasKnowledge.Lib.Fallible
import AtlasKnowledge.Services.Operations
import AtlasKnowledge.Services.Traversal

namespace AtlasKnowledge.Services.Upload

open Fallible (bind_eq_ok bind_eq_error)
open Observer (run run_bind run_pure run_throw run_change change)
open Pagination (Timestamp)
open Pipeline (Stage)

/-! ## 1. The storage and what is outside of it -/

/-- What is raised. -/
inductive Exc where
  | app (error : AppError)
  | integrityError
  | other (name : String)
  deriving DecidableEq

/-- The objects of the storage, by their keys. -/
abbrev Storage : Type := Text → Option Bytes

/-- `put`, where nothing goes wrong. -/
def Storage.put (s : Storage) (key : Text) (data : Bytes) : Storage :=
  Function.update s key (some data)

/-- `delete_prefix`, where nothing goes wrong. -/
def Storage.deletePrefix (s : Storage) (front : Text) : Storage := fun key =>
  if front.isPrefixOf key then none else s key

/-- `rmtree` goes on over errors: what is `stuck` stays. -/
def Storage.deletePrefixBut (s : Storage) (front : Text) (stuck : List Text) : Storage := fun key =>
  if key ∈ stuck then s key else s.deletePrefix front key

/-- What the database answers, at one point of a call. -/
structure Database where
  getByChecksum : Uuid → Text → Except Exc (Option DocumentRow)
  getOwned : Uuid → Uuid → Except Exc (Option SourceRow)
  getDefault : Uuid → Except Exc (Option SourceRow)
  createDefault : Uuid → Except Exc SourceRow
  create : DocumentRow → Except Exc Unit
  firstFailedStage : Uuid → Except Exc (Option Stage)
  commit : Except Exc Unit
  rollback : Except Exc Unit
  refresh : DocumentRow → Except Exc DocumentRow

/-- What is outside of the service: the database at each point of the call; whether `put` returns,
and, if it raises, what it leaves under the key; and whether the broker takes a message. -/
structure Outside where
  database : Nat → Database
  put : Text → Bytes → Except (Exc × Option Bytes) Unit
  enqueues : Stage → Uuid → Bool

/-- The arguments of a call, and the id and the time that it draws. -/
structure Call where
  filename : Text
  contentType : Option Text
  data : Bytes
  sourceId : Option Uuid
  documentId : Uuid
  now : Timestamp

/-- What a call changes: the storage, and whether the row of the new document was committed. -/
structure State where
  storage : Storage
  committed : Bool := false

/-- A part of a call: what it returns or raises, and what it has changed by then. -/
abbrev Act (α : Type) : Type := Observer.Op State Exc α

/-! ## 2. The call -/

section

variable {α : Type} (env : Env) (userId : Uuid) (call : Call) (out : Outside)

/-- What only the database answers. -/
def lift (x : Except Exc α) : Act α := fun s => (x, s)

/-- `try`: the exception is caught. -/
def attempt (m : Act α) : Act (Except Exc α) := fun s => (.ok (run m s).1, (run m s).2)

@[simp] theorem run_lift (x : Except Exc α) (s : State) : run (lift x) s = (x, s) := rfl

@[simp] theorem run_attempt (m : Act α) (s : State) :
    run (attempt m) s = (.ok (run m s).1, (run m s).2) := rfl

/-- The body of the `try` in `_resolve_source_id`. -/
def createSource : Except Exc SourceRow := do
  let created ← (out.database 2).createDefault userId
  (out.database 3).commit
  pure created

/-- `_resolve_source_id`. -/
def resolveSourceId : Option Uuid → Except Exc Uuid
  | some id => do
    match ← (out.database 1).getOwned userId id with
    | some source => pure source.id
    | none => throw (.app AppError.sourceNotFound)
  | none => do
    match ← (out.database 1).getDefault userId with
    | some existing => pure existing.id
    | none =>
      match createSource userId out with
      | .ok created => pure created.id
      | .error .integrityError => do
        (out.database 4).rollback
        match ← (out.database 5).getDefault userId with
        | some fallback => pure fallback.id
        | none => throw .integrityError
      | .error e => throw e

/-- `_enqueue_stage`. -/
def enqueueStage (doc : DocumentRow) (stage : Stage) : Except Exc DocumentRow :=
  if out.enqueues stage doc.id then pure doc
  else do
    (out.database 13).commit
    (out.database 14).refresh { doc with status := .failed, error := some enqueueFailedError }

/-- `_restart_from_failed_stage`. -/
def restartFromFailedStage (doc : DocumentRow) : Except Exc DocumentRow := do
  let failed ← (out.database 10).firstFailedStage doc.id
  let stage := failed.getD .parse
  (out.database 11).commit
  let doc ← (out.database 12).refresh { doc with status := stage.entryStatus, error := none }
  enqueueStage out doc stage

/-- `_reset_if_failed`. -/
def resetIfFailed (doc : DocumentRow) : Except Exc DocumentRow :=
  if doc.status = .failed then restartFromFailedStage out doc else pure doc

/-- The name that is kept: the last part of the path, cut to the column. -/
def safeName : Text := (pathName (Scan.replace ['\\'] ['/'] call.filename)).take 255

/-- `documents/{id}/original{suffix}`. -/
def storageKey : Text :=
  storagePrefix call.documentId ++ "original".toList ++ env.lower (pathSuffix (safeName call))

/-- The row that `create` inserts. -/
def document (sourceId : Uuid) (mime : String) : DocumentRow where
  id := call.documentId
  sourceId := sourceId
  uploadedBy := userId
  filename := safeName call
  mime := mime
  sizeBytes := call.data.length
  storageKey := storageKey env call
  checksum := env.sha256 call.data
  createdAt := call.now
  updatedAt := call.now

/-- `self._storage.put`. -/
def put (key : Text) (data : Bytes) : Act Unit := fun s =>
  match out.put key data with
  | .ok () => (.ok (), { s with storage := s.storage.put key data })
  | .error (e, some left) => (.error e, { s with storage := s.storage.put key left })
  | .error (e, none) => (.error e, s)

/-- The body of the `try`. -/
def insert (doc : DocumentRow) : Act Unit := do
  lift ((out.database 6).create doc)
  lift (out.database 7).commit
  change fun s => { s with committed := true }

/-- `upload` from the point where the file is known to be new. -/
def storeNew (sourceId : Uuid) (mime : String) : Act (DocumentRow × Bool) := do
  put out (storageKey env call) call.data
  let doc := document env userId call sourceId mime
  match ← attempt (insert out doc) with
  | .ok () =>
    let doc ← lift (enqueueStage out doc .parse)
    pure (doc, false)
  | .error .integrityError =>
    lift (out.database 8).rollback
    change fun s => { s with storage := s.storage.deletePrefix (storagePrefix call.documentId) }
    match ← lift ((out.database 9).getByChecksum userId (env.sha256 call.data)) with
    | some duplicate =>
      let doc ← lift (resetIfFailed out duplicate)
      pure (doc, true)
    | none => throw .integrityError
  | .error e => throw e

/-- `DocumentService.upload`. -/
def upload : Act (DocumentRow × Bool) := do
  let mime ← lift ((canonicalMime env (safeName call) call.contentType).mapError .app)
  lift ((checkMagic mime call.data).mapError .app)
  match ← lift ((out.database 0).getByChecksum userId (env.sha256 call.data)) with
  | some existing =>
    let doc ← lift (resetIfFailed out existing)
    pure (doc, true)
  | none =>
    let sourceId ← lift (resolveSourceId userId out call.sourceId)
    storeNew env userId call out sourceId mime

/-! ## 3. The calls that leave something -/

/-- A source is found or made. -/
inductive Resolves : Option Uuid → Uuid → Prop where
  | owned {id : Uuid} {source : SourceRow}
      (found : (out.database 1).getOwned userId id = .ok (some source)) :
      Resolves (some id) source.id
  | default {source : SourceRow}
      (found : (out.database 1).getDefault userId = .ok (some source)) : Resolves none source.id
  | created {source : SourceRow} (missing : (out.database 1).getDefault userId = .ok none)
      (create : (out.database 2).createDefault userId = .ok source)
      (commit : (out.database 3).commit = .ok ()) : Resolves none source.id
  | raced {source : SourceRow} (missing : (out.database 1).getDefault userId = .ok none)
      (clash : (out.database 2).createDefault userId = .error .integrityError ∨
        ∃ created, (out.database 2).createDefault userId = .ok created ∧
          (out.database 3).commit = .error .integrityError)
      (rollback : (out.database 4).rollback = .ok ())
      (found : (out.database 5).getDefault userId = .ok (some source)) : Resolves none source.id

/-- The call gets as far as the storage. -/
structure Reaches (sourceId : Uuid) (mime : String) : Prop where
  accepted : canonicalMime env (safeName call) call.contentType = .ok mime
  magic : checkMagic mime call.data = .ok ()
  isNew : (out.database 0).getByChecksum userId (env.sha256 call.data) = .ok none
  source : Resolves userId out call.sourceId sourceId

/-- `create` or `commit` raises it. -/
def Raises (doc : DocumentRow) (e : Exc) : Prop :=
  (out.database 6).create doc = .error e ∨
    (out.database 6).create doc = .ok () ∧ (out.database 7).commit = .error e

/-- From there, either `put` leaves a part of the file, or the insert raises something else than an
`IntegrityError`, or it raises one and the rollback fails. -/
inductive Leaves (sourceId : Uuid) (mime : String) : Prop where
  | part {e : Exc} {left : Bytes}
      (put : out.put (storageKey env call) call.data = .error (e, some left))
  | raised {e : Exc} (put : out.put (storageKey env call) call.data = .ok ())
      (raises : Raises out (document env userId call sourceId mime) e) (other : e ≠ .integrityError)
  | stuck {e : Exc} (put : out.put (storageKey env call) call.data = .ok ())
      (raises : Raises out (document env userId call sourceId mime) .integrityError)
      (rollback : (out.database 8).rollback = .error e)

end

variable {env : Env} {userId : Uuid} {call : Call} {out : Outside}

theorem createSource_ok {source : SourceRow} : createSource userId out = .ok source ↔
    (out.database 2).createDefault userId = .ok source ∧ (out.database 3).commit = .ok () := by
  simp only [createSource, bind_eq_ok, pure, Except.pure, Except.ok.injEq]
  constructor
  · rintro ⟨created, create, _, commit, rfl⟩
    exact ⟨create, commit⟩
  · rintro ⟨create, commit⟩
    exact ⟨source, create, (), commit, rfl⟩

theorem createSource_error {e : Exc} : createSource userId out = .error e ↔
    (out.database 2).createDefault userId = .error e ∨
      ∃ created, (out.database 2).createDefault userId = .ok created ∧
        (out.database 3).commit = .error e := by
  simp [createSource, bind_eq_error, pure, Except.pure]

/-- The relation is what `_resolve_source_id` returns. -/
theorem resolves_iff {requested : Option Uuid} {id : Uuid} :
    Resolves userId out requested id ↔ resolveSourceId userId out requested = .ok id := by
  constructor
  · intro h
    cases h with
    | owned found =>
      rw [resolveSourceId, found]
      rfl
    | default found =>
      rw [resolveSourceId, found]
      rfl
    | created missing create commit =>
      rw [resolveSourceId, missing, createSource_ok.mpr ⟨create, commit⟩]
      rfl
    | raced missing clash rollback found =>
      rw [resolveSourceId, missing, createSource_error.mpr clash, rollback, found]
      rfl
  · intro h
    cases requested with
    | some requested =>
      obtain ⟨_ | source, found, h⟩ := bind_eq_ok.mp h
      · cases h
      · exact Except.ok.inj h ▸ .owned found
    | none =>
      obtain ⟨_ | source, found, h⟩ := bind_eq_ok.mp h
      · simp only at h
        split at h
        · rename_i source hcreate
          obtain ⟨create, commit⟩ := createSource_ok.mp hcreate
          exact Except.ok.inj h ▸ .created found create commit
        · rename_i hcreate
          obtain ⟨_, rollback, h⟩ := bind_eq_ok.mp h
          obtain ⟨_ | source, fallback, h⟩ := bind_eq_ok.mp h
          · cases h
          · exact Except.ok.inj h ▸ .raced found (createSource_error.mp hcreate) rollback fallback
        · cases h
      · exact Except.ok.inj h ▸ .default found

/-! ## 4. What is left -/

/-- The insert raises what `create` or `commit` raises, and changes nothing then. -/
theorem run_insert (doc : DocumentRow) (s : State) :
    (run (insert out doc) s = (.ok (), { s with committed := true }) ∧ ∀ e, ¬ Raises out doc e) ∨
      ∃ e, Raises out doc e ∧ run (insert out doc) s = (.error e, s) := by
  unfold insert Raises
  cases hcreate : (out.database 6).create doc with
  | error e => exact .inr ⟨e, .inl rfl, by simp [run_bind]⟩
  | ok _ =>
    cases hcommit : (out.database 7).commit with
    | error e => exact .inr ⟨e, .inr ⟨rfl, rfl⟩, by simp [run_bind]⟩
    | ok _ => exact .inl ⟨by simp [run_bind], by simp⟩

theorem isPrefixOf_storageKey :
    (storagePrefix call.documentId).isPrefixOf (storageKey env call) = true := by
  rw [List.isPrefixOf_iff_prefix, storageKey, List.append_assoc]
  exact List.prefix_append _ _

/-- What was put under the key is deleted with its prefix. -/
theorem deletePrefix_put {files : Storage}
    (hfresh : ∀ key, (storagePrefix call.documentId).isPrefixOf key = true → files key = none)
    (data : Bytes) :
    (files.put (storageKey env call) data).deletePrefix (storagePrefix call.documentId) =
      files := by
  funext key
  unfold Storage.deletePrefix
  split_ifs with hkey
  · exact (hfresh key hkey).symm
  · refine Function.update_of_ne (fun h => hkey ?_) _ _
    exact h ▸ isPrefixOf_storageKey

theorem put_ne {files : Storage}
    (hfresh : ∀ key, (storagePrefix call.documentId).isPrefixOf key = true → files key = none)
    (data : Bytes) : files.put (storageKey env call) data ≠ files := by
  intro h
  have hkey := congrFun h (storageKey env call)
  rw [hfresh _ isPrefixOf_storageKey, Storage.put, Function.update_self] at hkey
  exact nomatch hkey

theorem Raises.unique {doc : DocumentRow} {e e' : Exc} (h : Raises out doc e)
    (h' : Raises out doc e') : e = e' := by
  rcases h with h | ⟨hcreate, h⟩ <;> rcases h' with h' | ⟨hcreate', h'⟩
  · exact Except.error.inj (h.symm.trans h')
  · exact nomatch h.symm.trans hcreate'
  · exact nomatch hcreate.symm.trans h'
  · exact Except.error.inj (h.symm.trans h')

/-- No row was committed, and still something has changed. -/
def Litters (files : Storage) (s : State) : Prop := s.committed = false ∧ s.storage ≠ files

theorem not_litters {files : Storage} {committed : Bool} : ¬ Litters files ⟨files, committed⟩ :=
  fun h => h.2 rfl

theorem not_litters_committed {files storage : Storage} : ¬ Litters files ⟨storage, true⟩ :=
  fun h => nomatch h.1

variable {files : Storage}

section

variable {sourceId : Uuid} {mime : String}
  (hfresh : ∀ key, (storagePrefix call.documentId).isPrefixOf key = true → files key = none)
include hfresh

theorem litters_put (data : Bytes) : Litters files ⟨files.put (storageKey env call) data, false⟩ :=
  ⟨rfl, put_ne hfresh data⟩

/-- **A new file leaves something in the storage** exactly if it ends as described. -/
theorem litters_storeNew :
    Litters files (run (storeNew env userId call out sourceId mime) ⟨files, false⟩).2 ↔
      Leaves env userId call out sourceId mime := by
  unfold storeNew
  rw [run_bind]
  rcases hput : out.put (storageKey env call) call.data with ⟨e, _ | left⟩ | _
  · have hrun : run (put out (storageKey env call) call.data) ⟨files, false⟩
        = (.error e, ⟨files, false⟩) := by
      simp [run, put, hput]
    rw [hrun]
    refine iff_of_false not_litters ?_
    rintro (⟨h⟩ | ⟨h, -, -⟩ | ⟨h, -, -⟩) <;> cases hput.symm.trans h
  · have hrun : run (put out (storageKey env call) call.data) ⟨files, false⟩
        = (.error e, ⟨files.put (storageKey env call) left, false⟩) := by
      simp [run, put, hput]
    rw [hrun]
    exact iff_of_true (litters_put hfresh left) (.part hput)
  · have hrun : run (put out (storageKey env call) call.data) ⟨files, false⟩
        = (.ok (), ⟨files.put (storageKey env call) call.data, false⟩) := by
      simp [run, put, hput]
    rw [hrun]
    set doc := document env userId call sourceId mime with hdoc
    show Litters files (run (attempt (insert out doc) >>= _) _).2 ↔ _
    rw [run_bind, run_attempt]
    rcases run_insert doc ⟨files.put (storageKey env call) call.data, false⟩ with
      ⟨hinsert, hnone⟩ | ⟨e, hraises, hinsert⟩
    · rw [hinsert]
      refine iff_of_false ?_ ?_
      · simp only [run_bind, run_lift]
        cases enqueueStage out doc .parse <;> exact not_litters_committed
      · rintro (⟨h⟩ | ⟨-, h, -⟩ | ⟨-, h, -⟩)
        · cases hput.symm.trans h
        · exact hnone _ h
        · exact hnone _ h
    · rw [hinsert]
      by_cases hclash : e = .integrityError
      · subst hclash
        simp only [run_bind, run_lift]
        cases hrollback : (out.database 8).rollback with
        | error e =>
          exact iff_of_true (litters_put hfresh call.data) (.stuck hput hraises hrollback)
        | ok _ =>
          refine iff_of_false ?_ ?_
          · -- whatever happens to the duplicate, the prefix is deleted before it
            simp only [run_change, deletePrefix_put hfresh call.data]
            rcases (out.database 9).getByChecksum userId (env.sha256 call.data) with
              _ | _ | duplicate
            · exact not_litters
            · exact not_litters
            · simp only [run_bind, run_lift]
              cases resetIfFailed out duplicate <;> exact not_litters
          · rintro (⟨h⟩ | ⟨-, h, hne⟩ | ⟨-, -, h⟩)
            · cases hput.symm.trans h
            · exact hne (h.unique hraises)
            · cases hrollback.symm.trans h
      · refine iff_of_true ?_ (.raised hput hraises hclash)
        cases e with
        | integrityError => exact absurd rfl hclash
        | app error => exact litters_put hfresh call.data
        | other name => exact litters_put hfresh call.data

end

/-- A call gets as far as the storage, or changes nothing. -/
theorem run_upload (s : State) :
    (∃ sourceId mime, Reaches env userId call out sourceId mime ∧
      run (upload env userId call out) s = run (storeNew env userId call out sourceId mime) s) ∨
    (run (upload env userId call out) s).2 = s ∧
      ∀ sourceId mime, ¬ Reaches env userId call out sourceId mime := by
  unfold upload
  simp only [run_bind, run_lift]
  cases hmime : canonicalMime env (safeName call) call.contentType with
  | error e => exact .inr ⟨rfl, fun _ _ h => nomatch hmime.symm.trans h.accepted⟩
  | ok mime =>
    cases hmagic : checkMagic mime call.data with
    | error e =>
      refine .inr ⟨by simp [Except.mapError, hmagic], fun _ mime' h => ?_⟩
      obtain rfl := Except.ok.inj (hmime.symm.trans h.accepted)
      exact nomatch hmagic.symm.trans h.magic
    | ok _ =>
      simp only [Except.mapError, hmagic]
      rcases hlookup : (out.database 0).getByChecksum userId (env.sha256 call.data) with
        e | _ | existing
      · exact .inr ⟨rfl, fun _ _ h => nomatch hlookup.symm.trans h.isNew⟩
      · cases hsource : resolveSourceId userId out call.sourceId with
        | error e =>
          refine .inr ⟨by simp [run_bind], fun _ _ h => ?_⟩
          exact nomatch hsource.symm.trans (resolves_iff.mp h.source)
        | ok sourceId =>
          refine .inl ⟨sourceId, mime, ⟨hmime, hmagic, hlookup, resolves_iff.mpr hsource⟩, ?_⟩
          simp [run_bind]
      · refine .inr ⟨?_, fun _ _ h => nomatch hlookup.symm.trans h.isNew⟩
        simp only [run_bind, run_lift]
        cases resetIfFailed out existing <;> rfl

theorem Reaches.unique {sourceId sourceId' : Uuid} {mime mime' : String}
    (h : Reaches env userId call out sourceId mime)
    (h' : Reaches env userId call out sourceId' mime') : sourceId = sourceId' ∧ mime = mime' :=
  ⟨Except.ok.inj ((resolves_iff.mp h.source).symm.trans (resolves_iff.mp h'.source)),
    Except.ok.inj (h.accepted.symm.trans h'.accepted)⟩

/-- **A call that ends without a committed row leaves the storage as it was, exactly if** it does
not get as far as the storage or does not end there as described. -/
theorem upload_leaves_nothing
    (hfresh : ∀ key, (storagePrefix call.documentId).isPrefixOf key = true → files key = none) :
    let after := (run (upload env userId call out) ⟨files, false⟩).2
    (after.committed = false → after.storage = files) ↔
      ¬ ∃ sourceId mime, Reaches env userId call out sourceId mime ∧
        Leaves env userId call out sourceId mime := by
  intro after
  have hclean : (after.committed = false → after.storage = files) ↔ ¬ Litters files after := by
    rw [Litters, not_and, not_not]
  rw [hclean, not_iff_not]
  rcases run_upload ⟨files, false⟩ with ⟨sourceId, mime, hreaches, hrun⟩ | ⟨hrun, hnone⟩
  · have hafter : Litters files after ↔ Leaves env userId call out sourceId mime := by
      rw [← litters_storeNew hfresh, ← hrun]
    rw [hafter]
    constructor
    · exact fun h => ⟨sourceId, mime, hreaches, h⟩
    · rintro ⟨sourceId', mime', hreaches', h⟩
      obtain ⟨rfl, rfl⟩ := hreaches.unique hreaches'
      exact h
  · have hafter : after = ⟨files, false⟩ := hrun
    refine iff_of_false (hafter ▸ not_litters) ?_
    rintro ⟨sourceId, mime, hreaches, -⟩
    exact hnone sourceId mime hreaches

/-! ### A commit that fails -/

def sampleEnv : Env where
  localOffset _ := 0
  sha256 data := data.map fun b => Char.ofNat b.toNat
  lower text := text
  defaultAlias := "default"
  aliases _ := none
  historyLimit := 0
  systemPrompt := []

def sampleInstant : Timestamp := sampleTime 1 first_day

def sampleCall (documentId : Uuid) : Call where
  filename := "a.txt".toList
  contentType := none
  data := [65]
  sourceId := none
  documentId := documentId
  now := sampleInstant

/-- The user has a default source, and the file is new. -/
def sampleDatabase : Database where
  getByChecksum _ _ := .ok none
  getOwned _ _ := .ok none
  getDefault userId := .ok (some
    { id := 5, ownerId := userId, name := defaultSourceName, type := defaultSourceType,
      createdAt := sampleInstant, updatedAt := sampleInstant })
  createDefault _ := .error .integrityError
  create _ := .ok ()
  firstFailedStage _ := .ok none
  commit := .ok ()
  rollback := .ok ()
  refresh doc := .ok doc

/-- The second commit raises an exception; a query after it finds a duplicate. -/
def failing (e : Exc) : Outside where
  database n :=
    if n = 7 then { sampleDatabase with commit := .error e }
    else if n = 9 then
      { sampleDatabase with
        getByChecksum := fun userId _ =>
          .ok (some (document sampleEnv userId (sampleCall 8) 5 "text/plain")) }
    else sampleDatabase
  put _ _ := .ok ()
  enqueues _ _ := true

/-- The same file was uploaded at the same time. -/
theorem upload_leaves_nothing_clash :
    (run (upload sampleEnv 1 (sampleCall 9) (failing .integrityError))
      ⟨fun _ => none, false⟩).2.storage
      = fun _ => none := by
  refine (upload_leaves_nothing fun _ _ => rfl).mpr ?_ rfl
  rintro ⟨sourceId, mime, -, ⟨hput⟩ | ⟨-, hraises, hother⟩ | ⟨-, -, hrollback⟩⟩
  · exact nomatch hput
  · rcases hraises with h | ⟨-, h⟩
    · exact nomatch h
    · exact hother (Except.error.inj h).symm
  · exact nomatch hrollback

/-- The connection to the database is lost at the commit: the file stays. -/
theorem not_nothing :
    let after := (run (upload sampleEnv 1 (sampleCall 9) (failing (.other "OperationalError")))
      ⟨fun _ => none, false⟩).2
    ¬ (after.committed = false → after.storage = fun _ => none) := by
  intro after h
  have hkey := congrFun (h rfl) (storageKey sampleEnv (sampleCall 9))
  exact absurd hkey (by decide)

end AtlasKnowledge.Services.Upload
