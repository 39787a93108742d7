/-
# One execution of a pipeline task

`IngestionService.parse`, `chunk` and `embed` inside the task shell `_run_stage`
(`workers/tasks/ingest.py`), as a machine: a program counter between two effects, and one step
for each effect, that is one committed transaction, one read, one storage write, one provider
call or one message to the broker.

What the environment decides is a `Choice`: the effect goes through, the provider replies, or
something is raised.  An exception leaves the service (a transaction in progress is rolled
back, so the world keeps what was committed) and reaches the shell, which retries, marks the
stage failed or lets Celery give up.

Code that is not the pipeline's own is a parameter (`Adapters`): the parser of the document's
type, the JSON codec of the normalised document, the chunking strategy and the provider.
-/
import AtlasKnowledge.Domain.Provider
import AtlasKnowledge.Pipeline.Store
import Mathlib.Algebra.Group.Nat.Defs

namespace AtlasKnowledge.Pipeline

/-! ## 1. What the service calls -/

/-- `EmbeddingError` of `domain/ports/embedding.py`. -/
structure EmbeddingError where
  code : ProviderErrorCode
  message : String
  deriving DecidableEq, Repr

/-- `_RETRYABLE_EMBEDDING_CODES`. -/
def EmbeddingError.retryable (e : EmbeddingError) : Bool :=
  e.code = .rateLimited || e.code = .transient

/-- The pure parts the stages call, and the two settings they read.

* `parse`: `get_parser(mime).parse(data, filename)`, with the text of its `ParseError`;
* `dump`, `validate`: `model_dump_json` and `model_validate_json`;
* `buildChunks`: `_build_chunks` for a source type;
* `sourceType`: `KnowledgeSourceRepository.get`, `none` when the source is gone;
* `version`, `batchSize`: the provider's version and `embedding_batch_size`. -/
structure Adapters where
  parse : String → Bytes → String → Except String NormalizedDocument
  dump : NormalizedDocument → Bytes
  validate : Bytes → Except String NormalizedDocument
  buildChunks : NormalizedDocument → String → Drafts
  sourceType : Id → Option String
  version : String
  batchSize : Nat

/-! ## 2. Exceptions -/

/-- What can leave the service: `TransientStageError`, `OSError`, `SQLAlchemyError`,
`SoftTimeLimitExceeded`, or any other exception, by the name of its class. -/
inductive Exc where
  | transient (message : String)
  | osError (message : String)
  | sqlAlchemyError (message : String)
  | softTimeLimit
  | other (name : String)
  deriving DecidableEq, Repr

/-- `_RETRYABLE`: the message of an exception the shell retries. -/
def Exc.retryable? : Exc → Option String
  | .transient m => some m
  | .osError m => some m
  | .sqlAlchemyError m => some m
  | .softTimeLimit => none
  | .other _ => none

/-- The foreign key violation of a transaction on a deleted document. -/
def foreignKeyViolation : Exc := .sqlAlchemyError "IntegrityError"

/-! ## 3. The program counter -/

/-- How an execution ended: it returned, Celery scheduled it again, Celery gave up and raised
the exception again, or the shell's `_fail` ran, with or without committing. -/
inductive Ending where
  | returned | retried | reraised | marked | markLost
  deriving DecidableEq, Repr

/-- Where an execution of a stage stands; the constructor names the effect that comes next. -/
inductive Pc (ω : Type) : Stage → Type where
  /-- `_claim`. -/
  | start {s : Stage} : Pc ω s
  /-- `documents.get`, after the claim was committed. -/
  | claimed {s : Stage} : Pc ω s
  /-- parse: `_read(storage_key)` and the parser. -/
  | readingOriginal (doc : DocRow) : Pc ω .parse
  /-- parse: `_write(normalized_key)`. -/
  | writingNormalized (normalized : NormalizedDocument) : Pc ω .parse
  /-- parse: `_succeed`. -/
  | finishingParse : Pc ω .parse
  /-- chunk: `_read(normalized_key)` and its validation. -/
  | readingNormalized (doc : DocRow) : Pc ω .chunk
  /-- chunk: the knowledge source, and `_build_chunks`. -/
  | readingSource (doc : DocRow) (normalized : NormalizedDocument) : Pc ω .chunk
  /-- chunk: `replace_for_document` and `_succeed`, one transaction. -/
  | replacing (drafts : Drafts) : Pc ω .chunk
  /-- embed: `list_unembedded`. -/
  | batching : Pc ω .embed
  /-- embed: the provider call. -/
  | embedding (batch : List (ChunkRow ω)) : Pc ω .embed
  /-- embed: `set_embeddings` and its commit. -/
  | storing (batch : List (ChunkRow ω)) (vectors : List ω) : Pc ω .embed
  /-- embed: `_succeed`, after an empty batch. -/
  | finishingEmbed : Pc ω .embed
  /-- The service's own `_fail`. -/
  | failing {s : Stage} (error : String) : Pc ω s
  /-- The message for the next stage. -/
  | enqueueing {s : Stage} (next : Stage) : Pc ω s
  /-- `_with_service`'s `finally`. -/
  | closing {s : Stage} : Pc ω s
  /-- The shell's `_fail`. -/
  | marking {s : Stage} (error : String) : Pc ω s
  | ended {s : Stage} (how : Ending) : Pc ω s

/-- What the environment makes of the next effect. -/
inductive Choice (ω : Type) where
  /-- It goes through. -/
  | go
  /-- The embedding provider's reply. -/
  | reply (r : Except EmbeddingError (List ω))
  /-- It raises. -/
  | raise (e : Exc)
  /-- It is a write, and so many bytes of it are in the file. -/
  | part (size : Nat)

variable {ω : Type}

/-! ## 4. The shell: `_run_stage` -/

/-- `Task.max_retries`, which `retry` uses when it is not given a limit. -/
def celeryMaxRetries : Nat := 3

/-- `_MAX_BACKOFF_S`. -/
def maxBackoff : Nat := 60

/-- The error text of `SoftTimeLimitExceeded`. -/
def timeoutText (stage : Stage) : String := stage.name ++ " 階段執行逾時"

/-- The error text when the retries are used up. -/
def exhaustedText (stage : Stage) (message : String) : String :=
  stage.name ++ " 階段重試耗盡:" ++ message

/-- The error text of any other exception. -/
def unexpectedText (stage : Stage) (name : String) : String :=
  stage.name ++ " 階段發生非預期錯誤:" ++ name

/-- `task.retry(exc=exc, countdown=countdown)`: it schedules the task once more, or raises the
exception again when that would exceed the task's own limit. -/
def taskRetry (stage : Stage) (retries : Nat) (w : World ω) : World ω × Pc ω stage :=
  if retries + 1 > celeryMaxRetries then (w, .ended .reraised)
  else
    let message : Message :=
      { stage := stage, retries := retries + 1, countdown := min (2 ^ retries) maxBackoff }
    ({ w with sent := w.sent ++ [message] }, .ended .retried)

/-- `_run_stage` calls `_fail` on the exception: there is no retry for it, or none left. -/
def Exc.marks (stage : Stage) (retries : Nat) (e : Exc) : Bool :=
  match e.retryable? with
  | some _ => stage.maxRetries ≤ retries
  | none => true

/-- The `except` clauses of `_run_stage`. -/
def runStage (stage : Stage) (retries : Nat) (w : World ω) (e : Exc) : World ω × Pc ω stage :=
  match e.retryable? with
  | some message =>
    if retries ≥ stage.maxRetries then (w, .marking (exhaustedText stage message))
    else taskRetry stage retries w
  | none =>
    match e with
    | .other name => (w, .marking (unexpectedText stage name))
    | _ => (w, .marking (timeoutText stage))

/-! ## 5. The stages -/

/-- Where the row loaded by `documents.get` leads. -/
def afterGet : (stage : Stage) → DocRow → Pc ω stage
  | .parse, doc => .readingOriginal doc
  | .chunk, doc => .readingNormalized doc
  | .embed, _ => .batching

/-- The parse stage after its claim, up to the write. -/
def readOriginal (A : Adapters) (doc : DocRow) (w : World ω) : Pc ω .parse :=
  match w.objects .original with
  | none => .failing "找不到原始檔案"
  | some data =>
    match A.parse doc.mime data doc.filename with
    | .error message => .failing message
    | .ok normalized => .writingNormalized normalized

/-- The chunk stage after its claim, up to the knowledge source. -/
def readNormalized (A : Adapters) (doc : DocRow) (w : World ω) : Pc ω .chunk :=
  match w.objects .normalized with
  | none => .failing "找不到解析結果,請刪除後重新上傳"
  | some raw =>
    match A.validate raw with
    | .error message => .failing ("解析結果格式錯誤:" ++ message)
    | .ok normalized => .readingSource doc normalized

/-- The commit of a transaction that refers to the document, or the violation it raises. -/
def commitOr (stage : Stage) (retries : Nat) (w : World ω) (tx : Option (World ω))
    (pc : Pc ω stage) : World ω × Pc ω stage :=
  match tx with
  | some w' => (w', pc)
  | none => runStage stage retries w foreignKeyViolation

/-- The next effect goes through.  A provider call needs a reply, and an ended execution does
nothing more. -/
def goPc (A : Adapters) (retries : Nat) (w : World ω) :
    {stage : Stage} → Pc ω stage → Option (World ω × Pc ω stage)
  | stage, .start =>
    some (match claimTx stage w with
      | some w' => (w', .claimed)
      | none => (w, .closing))
  | stage, .claimed =>
    some (match w.doc with
      | some doc => (w, afterGet stage doc)
      | none => (w, .closing))
  | _, .readingOriginal doc => some (w, readOriginal A doc w)
  | _, .writingNormalized normalized =>
    some (w.put .normalized (A.dump normalized), .finishingParse)
  | _, .finishingParse => some (commitOr .parse retries w (succeedTx .parse w) (.enqueueing .chunk))
  | _, .readingNormalized doc => some (w, readNormalized A doc w)
  | _, .readingSource doc normalized =>
    some (w, .replacing (A.buildChunks normalized ((A.sourceType doc.sourceId).getD "upload")))
  | _, .replacing drafts =>
    some (commitOr .chunk retries w (replaceTx drafts w) (.enqueueing .embed))
  | _, .batching =>
    some (match w.listUnembedded A.batchSize with
      | [] => (w, .finishingEmbed)
      | c :: cs => (w, .embedding (c :: cs)))
  | _, .embedding _ => none
  | _, .storing batch vectors =>
    some (w.setEmbeddings ((batch.map ChunkRow.id).zip vectors) A.version, .batching)
  | _, .finishingEmbed => some (commitOr .embed retries w (succeedTx .embed w) .closing)
  | stage, .failing error =>
    some (commitOr stage retries w (failTx stage error w) .closing)
  | _, .enqueueing next => some ({ w with sent := w.sent ++ [{ stage := next }] }, .closing)
  | _, .closing => some (w, .ended .returned)
  | stage, .marking error =>
    some (match failTx stage error w with
      | some w' => (w', .ended .marked)
      | none => (w, .ended .markLost))
  | _, .ended _ => none

/-- The provider replies.  `zip(.., strict=True)` raises on a reply of the wrong length. -/
def replyPc (retries : Nat) (w : World ω) (r : Except EmbeddingError (List ω)) :
    {stage : Stage} → Pc ω stage → Option (World ω × Pc ω stage)
  | _, .embedding batch =>
    some (match r with
      | .ok vectors =>
        if vectors.length = batch.length then (w, .storing batch vectors)
        else runStage .embed retries w (.other "ValueError")
      | .error e =>
        if e.retryable then runStage .embed retries w (.transient e.message)
        else (w, .failing e.message))
  | _, _ => none

/-- `_read` and `_write` turn an `OSError` of the storage into a `TransientStageError`. -/
def wrapOsError : {stage : Stage} → Pc ω stage → Exc → Exc
  | _, .readingOriginal _, .osError m => .transient ("讀取儲存失敗:" ++ m)
  | _, .readingNormalized _, .osError m => .transient ("讀取儲存失敗:" ++ m)
  | _, .writingNormalized _, .osError m => .transient ("寫入儲存失敗:" ++ m)
  | _, _, e => e

/-- The next effect raises.  The shell's own `_fail` swallows what is raised inside it. -/
def raisePc (retries : Nat) (w : World ω) (e : Exc) :
    {stage : Stage} → Pc ω stage → Option (World ω × Pc ω stage)
  | _, .ended _ => none
  | _, .marking _ => some (w, .ended .markLost)
  | stage, pc => some (runStage stage retries w (wrapOsError pc e))

/-- The next effect is under way: `write_bytes` truncates the file and fills it from the front.
Readers see what is there so far, and it stays when the write then raises. -/
def partPc (A : Adapters) (w : World ω) (size : Nat) :
    {stage : Stage} → Pc ω stage → Option (World ω × Pc ω stage)
  | _, .writingNormalized normalized =>
    some (w.put .normalized ((A.dump normalized).take size), .writingNormalized normalized)
  | _, _ => none

/-- One step of an execution. -/
def stepPc (A : Adapters) (retries : Nat) (w : World ω) {stage : Stage} (pc : Pc ω stage) :
    Choice ω → Option (World ω × Pc ω stage)
  | .go => goPc A retries w pc
  | .reply r => replyPc retries w r pc
  | .raise e => raisePc retries w e pc
  | .part size => partPc A w size pc

/-! ## 6. What one step can do

Every invariant of the pipeline is derived from this inversion and never from the step function
itself.  `Effect` lists the steps that write one of the document's tables, the step that finds
the cursor empty, the step into the shell's exception handling, and, as `move`, all the others. -/

/-- The execution has claimed the document and may still write its status on the strength of
that claim; the shell's `_fail` counts, since it writes without any. -/
def Pc.holdsClaim : {stage : Stage} → Pc ω stage → Bool
  | _, .start => false
  | _, .enqueueing _ => false
  | _, .closing => false
  | _, .ended _ => false
  | _, _ => true

/-- The shell's `_fail` comes next. -/
def Pc.isMarking : {stage : Stage} → Pc ω stage → Bool
  | _, .marking _ => true
  | _, _ => false

/-- The execution is over. -/
def Pc.isEnded : {stage : Stage} → Pc ω stage → Bool
  | _, .ended _ => true
  | _, _ => false

/-- The embed stage has seen an empty batch and commits `ready` next. -/
def Pc.isFinishingEmbed : {stage : Stage} → Pc ω stage → Bool
  | _, .finishingEmbed => true
  | _, _ => false

/-- A place the stage itself comes to, other than the embed stage's last commit: neither the
shell's `_fail` nor the end that Celery makes of an exception. -/
def Pc.isPlain : {stage : Stage} → Pc ω stage → Bool
  | _, .finishingEmbed => false
  | _, .marking _ => false
  | _, .ended .retried => false
  | _, .ended .reraised => false
  | _, _ => true

/-- The drafts the chunk stage commits next. -/
def Pc.drafts? : {stage : Stage} → Pc ω stage → Option Drafts
  | _, .replacing drafts => some drafts
  | _, _ => none

/-- The document's own tables are as they were. -/
structure SameTables (w w' : World ω) : Prop where
  doc : w'.doc = w.doc
  chunks : w'.chunks = w.chunks
  jobs : w'.jobs = w.jobs

theorem SameTables.refl (w : World ω) : SameTables w w := ⟨rfl, rfl, rfl⟩

theorem SameTables.status {w w' : World ω} (h : SameTables w w') : w'.status = w.status := by
  rw [World.status, World.status, h.doc]

theorem SameTables.allEmbedded {w w' : World ω} (h : SameTables w w') (he : w.AllEmbedded) :
    w'.AllEmbedded := by
  rw [World.AllEmbedded, h.chunks]
  exact he

/-- What a step of an execution does to the world and to the program counter. -/
inductive Effect (A : Adapters) (retries : Nat) (w : World ω) :
    {stage : Stage} → Pc ω stage → Choice ω → World ω → Pc ω stage → Prop where
  | claim {stage : Stage} {w' : World ω} (h : claimTx stage w = some w') :
      Effect A retries w (.start (s := stage)) .go w' .claimed
  | store {batch : List (ChunkRow ω)} {vectors : List ω} :
      Effect A retries w (.storing batch vectors) .go
        (w.setEmbeddings ((batch.map ChunkRow.id).zip vectors) A.version) .batching
  | replace {drafts : Drafts} {w' : World ω} (h : replaceTx drafts w = some w') :
      Effect A retries w (.replacing drafts) .go w' (.enqueueing .embed)
  | finishParse {w' : World ω} (h : succeedTx .parse w = some w') :
      Effect A retries w .finishingParse .go w' (.enqueueing .chunk)
  | finishEmbed {w' : World ω} (h : succeedTx .embed w = some w') :
      Effect A retries w .finishingEmbed .go w' .closing
  | fail {stage : Stage} {error : String} {w' : World ω} (h : failTx stage error w = some w') :
      Effect A retries w (.failing error) .go w' .closing
  | mark {stage : Stage} {error : String} {w' : World ω} (h : failTx stage error w = some w') :
      Effect A retries w (.marking error) .go w' (.ended .marked)
  | drained (h : w.listUnembedded A.batchSize = []) :
      Effect A retries w .batching .go w .finishingEmbed
  | handle {stage : Stage} {pc : Pc ω stage} {c : Choice ω} (e : Exc)
      (h : pc.isMarking = false) (raised : pc.holdsClaim = false → c = .raise e) :
      Effect A retries w pc c (runStage stage retries w e).1 (runStage stage retries w e).2
  | move {stage : Stage} {pc pc' : Pc ω stage} {c : Choice ω} {w' : World ω}
      (tables : SameTables w w') (claim : pc'.holdsClaim = true → pc.holdsClaim = true)
      (plain : pc'.isPlain = true) :
      Effect A retries w pc c w' pc'

variable {A : Adapters} {retries : Nat} {w w' : World ω} {stage : Stage} {pc pc' : Pc ω stage}
  {c : Choice ω}

theorem runStage_effect {e : Exc} (h : runStage stage retries w e = (w', pc'))
    (hpc : pc.isMarking = false) (hraised : pc.holdsClaim = false → c = .raise e) :
    Effect A retries w pc c w' pc' := by
  have heffect : Effect A retries w pc c (runStage stage retries w e).1
      (runStage stage retries w e).2 := .handle e hpc hraised
  rwa [h] at heffect

/-- A transaction that refers to the document commits or raises. -/
theorem commitOr_effect {tx : Option (World ω)} {next : Pc ω stage}
    (hpc : pc.isMarking = false) (hclaim : pc.holdsClaim = true)
    (hcommit : ∀ w', tx = some w' → Effect A retries w pc c w' next) :
    Effect A retries w pc c (commitOr stage retries w tx next).1
      (commitOr stage retries w tx next).2 := by
  cases tx with
  | none => exact .handle foreignKeyViolation hpc fun h => absurd (hclaim.symm.trans h) (by decide)
  | some w' => exact hcommit w' rfl

/-- The row that `documents.get` loaded leads into the stage. -/
theorem afterGet_isPlain (doc : DocRow) : (afterGet (ω := ω) stage doc).isPlain = true := by
  cases stage <;> rfl

theorem readOriginal_isPlain (doc : DocRow) : (readOriginal A doc w).isPlain = true := by
  unfold readOriginal
  split
  · rfl
  · split <;> rfl

theorem readNormalized_isPlain (doc : DocRow) : (readNormalized A doc w).isPlain = true := by
  unfold readNormalized
  split
  · rfl
  · split <;> rfl

/-- **Everything an effect that goes through can do.** -/
theorem goPc_effect (h : goPc A retries w pc = some (w', pc')) :
    Effect A retries w pc .go w' pc' := by
  cases pc with
  | start =>
    obtain h := Option.some.inj h
    split at h
    · rename_i w₁ hclaim
      obtain ⟨rfl, rfl⟩ := Prod.mk.inj h
      exact .claim hclaim
    · obtain ⟨rfl, rfl⟩ := Prod.mk.inj h
      exact .move (SameTables.refl _) (fun h => h) rfl
  | claimed =>
    obtain h := Option.some.inj h
    split at h
    · rename_i doc _
      obtain ⟨rfl, rfl⟩ := Prod.mk.inj h
      exact .move (SameTables.refl _) (fun _ => rfl) (afterGet_isPlain doc)
    · obtain ⟨rfl, rfl⟩ := Prod.mk.inj h
      exact .move (SameTables.refl _) (fun _ => rfl) rfl
  | readingOriginal doc =>
    obtain ⟨rfl, rfl⟩ := Prod.mk.inj (Option.some.inj h)
    exact .move (SameTables.refl _) (fun _ => rfl) (readOriginal_isPlain doc)
  | writingNormalized normalized =>
    obtain ⟨rfl, rfl⟩ := Prod.mk.inj (Option.some.inj h)
    exact .move ⟨rfl, rfl, rfl⟩ (fun _ => rfl) rfl
  | finishingParse =>
    obtain ⟨rfl, rfl⟩ := Prod.mk.inj (Option.some.inj h)
    exact commitOr_effect rfl rfl fun _ hw => .finishParse hw
  | readingNormalized doc =>
    obtain ⟨rfl, rfl⟩ := Prod.mk.inj (Option.some.inj h)
    exact .move (SameTables.refl _) (fun _ => rfl) (readNormalized_isPlain doc)
  | readingSource doc normalized =>
    obtain ⟨rfl, rfl⟩ := Prod.mk.inj (Option.some.inj h)
    exact .move (SameTables.refl _) (fun _ => rfl) rfl
  | replacing drafts =>
    obtain ⟨rfl, rfl⟩ := Prod.mk.inj (Option.some.inj h)
    exact commitOr_effect rfl rfl fun _ hw => .replace hw
  | batching =>
    obtain h := Option.some.inj h
    split at h
    · rename_i hnil
      obtain ⟨rfl, rfl⟩ := Prod.mk.inj h
      exact .drained hnil
    · obtain ⟨rfl, rfl⟩ := Prod.mk.inj h
      exact .move (SameTables.refl _) (fun _ => rfl) rfl
  | embedding batch => exact absurd h (by simp [goPc])
  | storing batch vectors =>
    obtain ⟨rfl, rfl⟩ := Prod.mk.inj (Option.some.inj h)
    exact .store
  | finishingEmbed =>
    obtain ⟨rfl, rfl⟩ := Prod.mk.inj (Option.some.inj h)
    exact commitOr_effect rfl rfl fun _ hw => .finishEmbed hw
  | failing error =>
    obtain ⟨rfl, rfl⟩ := Prod.mk.inj (Option.some.inj h)
    exact commitOr_effect rfl rfl fun _ hw => .fail hw
  | enqueueing next =>
    obtain ⟨rfl, rfl⟩ := Prod.mk.inj (Option.some.inj h)
    exact .move ⟨rfl, rfl, rfl⟩ (fun h => h) rfl
  | closing =>
    obtain ⟨rfl, rfl⟩ := Prod.mk.inj (Option.some.inj h)
    exact .move (SameTables.refl _) (fun h => h) rfl
  | marking error =>
    obtain h := Option.some.inj h
    split at h
    · rename_i hfail
      obtain ⟨rfl, rfl⟩ := Prod.mk.inj h
      exact .mark hfail
    · obtain ⟨rfl, rfl⟩ := Prod.mk.inj h
      exact .move (SameTables.refl _) (fun _ => rfl) rfl
  | ended how => exact absurd h (by simp [goPc])

/-- Everything a reply of the provider can do. -/
theorem replyPc_effect {r : Except EmbeddingError (List ω)}
    (h : replyPc retries w r pc = some (w', pc')) : Effect A retries w pc c w' pc' := by
  cases pc with
  | embedding batch =>
    obtain h := Option.some.inj h
    split at h
    · split at h
      · obtain ⟨rfl, rfl⟩ := Prod.mk.inj h
        exact .move (SameTables.refl _) (fun _ => rfl) rfl
      · exact runStage_effect h rfl fun hno => nomatch hno
    · split at h
      · exact runStage_effect h rfl fun hno => nomatch hno
      · obtain ⟨rfl, rfl⟩ := Prod.mk.inj h
        exact .move (SameTables.refl _) (fun _ => rfl) rfl
  | _ => exact absurd h (by simp [replyPc])

/-- Everything an exception can do. -/
theorem raisePc_effect {e : Exc} (h : raisePc retries w e pc = some (w', pc')) :
    Effect A retries w pc (.raise e) w' pc' := by
  cases pc with
  | ended how => exact absurd h (by simp [raisePc])
  | marking error =>
    obtain ⟨rfl, rfl⟩ := Prod.mk.inj (Option.some.inj h)
    exact .move (SameTables.refl _) (fun _ => rfl) rfl
  | _ =>
    obtain ⟨rfl, rfl⟩ := Prod.mk.inj (Option.some.inj h)
    exact .handle _ rfl (by simp [Pc.holdsClaim, wrapOsError])

/-- A write that is under way touches no table. -/
theorem partPc_effect {size : Nat} (h : partPc A w size pc = some (w', pc')) :
    Effect A retries w pc c w' pc' := by
  cases pc with
  | writingNormalized normalized =>
    obtain ⟨rfl, rfl⟩ := Prod.mk.inj (Option.some.inj h)
    exact .move ⟨rfl, rfl, rfl⟩ (fun _ => rfl) rfl
  | _ => exact absurd h (by simp [partPc])

/-- **What one step of an execution can do.** -/
theorem stepPc_effect (h : stepPc A retries w pc c = some (w', pc')) :
    Effect A retries w pc c w' pc' := by
  cases c with
  | go => exact goPc_effect h
  | reply r => exact replyPc_effect h
  | raise e => exact raisePc_effect h
  | part size => exact partPc_effect h

/-- An execution that takes a step had not ended. -/
theorem step_not_ended (h : stepPc A retries w pc c = some (w', pc')) :
    pc.isEnded = false := by
  cases pc with
  | ended how => cases c <;> simp [stepPc, goPc, replyPc, raisePc, partPc] at h
  | _ => rfl

/-- The shell touches no table before its own `_fail`, and it never returns into the stage. -/
theorem runStage_spec (e : Exc) :
    SameTables w (runStage stage retries w e).1 ∧
      ((runStage stage retries w e).2.isMarking = true ∨
        ∃ how, (runStage stage retries w e).2 = .ended how) := by
  unfold runStage
  split
  · split
    · exact ⟨SameTables.refl _, Or.inl rfl⟩
    · unfold taskRetry
      split
      · exact ⟨SameTables.refl _, Or.inr ⟨_, rfl⟩⟩
      · exact ⟨⟨rfl, rfl, rfl⟩, Or.inr ⟨_, rfl⟩⟩
  · split <;> exact ⟨SameTables.refl _, Or.inl rfl⟩

/-- On an exception it does not retry, the shell comes to its `_fail`. -/
theorem runStage_of_marks {e : Exc} (h : e.marks stage retries = true) :
    ∃ error, runStage stage retries w e = (w, .marking error) := by
  unfold Exc.marks at h
  unfold runStage
  split at h
  · rename_i message hretry
    have hmax : retries ≥ stage.maxRetries := by simpa using h
    exact ⟨exhaustedText stage message, by simp only [hmax, if_true]⟩
  · split <;> exact ⟨_, rfl⟩

/-- Every other exception it retries, as far as Celery does. -/
theorem runStage_of_not_marks {e : Exc} (h : e.marks stage retries = false) :
    runStage stage retries w e = taskRetry stage retries w := by
  unfold Exc.marks at h
  unfold runStage
  split at h
  · rename_i message hretry
    have hmax : ¬ retries ≥ stage.maxRetries := by simpa using h
    simp only [hmax, if_false]
  · exact nomatch h

/-- The shell comes to its `_fail` exactly on the exceptions it does not retry. -/
theorem runStage_isMarking (e : Exc) :
    (runStage stage retries w e).2.isMarking = e.marks stage retries := by
  cases h : e.marks stage retries with
  | true =>
    obtain ⟨error, herror⟩ : ∃ error, runStage stage retries w e = (w, .marking error) :=
      runStage_of_marks h
    rw [herror]
    rfl
  | false =>
    rw [runStage_of_not_marks h]
    unfold taskRetry
    split <;> rfl

theorem runStage_isFinishingEmbed (e : Exc) :
    (runStage stage retries w e).2.isFinishingEmbed = false := by
  have hspec : SameTables w (runStage stage retries w e).1 ∧
      ((runStage stage retries w e).2.isMarking = true ∨
        ∃ how, (runStage stage retries w e).2 = .ended how) := runStage_spec e
  rcases hspec.2 with hm | ⟨how, hm⟩
  · cases hpc : (runStage stage retries w e).2 with
    | finishingEmbed => exact absurd hm (by simp [hpc, Pc.isMarking])
    | _ => rfl
  · rw [hm]
    rfl

end AtlasKnowledge.Pipeline
