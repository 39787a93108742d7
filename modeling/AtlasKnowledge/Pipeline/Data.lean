/-
# The tables of the ingestion pipeline

One document's share of the database, the object storage and the broker: its `documents` row,
its `document_chunks`, its `ingestion_jobs`, the two objects under its storage prefix and the
messages handed to Celery on its behalf (`infrastructure/db/models.py`,
`domain/ports/storage.py`, `workers/tasks/ingest.py`).

The constraints the code relies on are fields: a chunk table without its primary key or without
`ux_chunks_doc_seq` cannot be built, and `ux_jobs_doc_stage` is the reason `jobs` is a function
of the stage.
-/
import AtlasKnowledge.Domain.Document

namespace AtlasKnowledge.Pipeline

/-! ## 1. Stages and statuses -/

/-- The three stages, in `STAGE_ORDER`. -/
inductive Stage where
  | parse | chunk | embed
  deriving DecidableEq, Repr

/-- `documents.status`. -/
inductive DocStatus where
  | pending | parsing | chunking | embedding | ready | failed
  deriving DecidableEq, Repr

/-- The stage's name in the task shell, in `ingestion_jobs.stage` and in the error texts. -/
def Stage.name : Stage → String
  | .parse => "parse"
  | .chunk => "chunk"
  | .embed => "embed"

/-- `allowed_from` of the stage's claim. -/
def Stage.allowedFrom : Stage → List DocStatus
  | .parse => [.pending, .failed]
  | .chunk => [.chunking, .failed]
  | .embed => [.embedding, .failed]

/-- `to` of the stage's claim: the status while the stage runs. -/
def Stage.claimTo : Stage → DocStatus
  | .parse => .parsing
  | .chunk => .chunking
  | .embed => .embedding

/-- `next_status` of the stage's `_succeed`. -/
def Stage.nextStatus : Stage → DocStatus
  | .parse => .chunking
  | .chunk => .embedding
  | .embed => .ready

/-- `_STAGE_ENTRY_STATUS`: the status a retry request puts the document in. -/
def Stage.entryStatus : Stage → DocStatus
  | .parse => .pending
  | .chunk => .chunking
  | .embed => .embedding

/-- `_PARSE_MAX_RETRIES`, `_CHUNK_MAX_RETRIES` and `_EMBED_MAX_RETRIES`. -/
def Stage.maxRetries : Stage → Nat
  | .parse => 3
  | .chunk => 3
  | .embed => 5

/-- `STAGE_ORDER`. -/
def stageOrder : List Stage := [.parse, .chunk, .embed]

/-- The position in `STAGE_ORDER`. -/
def Stage.index : Stage → Nat
  | .parse => 0
  | .chunk => 1
  | .embed => 2

/-! ## 2. Rows -/

/-- The columns of `documents` that the pipeline reads or writes. -/
structure DocRow where
  status : DocStatus
  error : Option String := none
  mime : String
  filename : String
  sourceId : Id
  deriving DecidableEq, Repr

/-- `IngestionJob.status`. -/
inductive JobStatus where
  | queued | running | succeeded | failed
  deriving DecidableEq, Repr

/-- A row of `ingestion_jobs`; its timestamps take part in nothing. -/
structure JobRow where
  status : JobStatus
  attempts : Nat
  error : Option String := none
  deriving DecidableEq, Repr

/-- A row of `document_chunks`; `ω` is the type of embedding vectors. -/
structure ChunkRow (ω : Type) where
  id : Id
  seq : Nat
  text : Text
  tokens : Nat
  info : ChunkMeta
  embedding : Option ω := none
  embeddingVersion : Option String := none

/-- The document's chunks, with the table's two keys. -/
structure ChunkTable (ω : Type) where
  rows : List (ChunkRow ω)
  pk : (rows.map ChunkRow.id).Nodup
  uxDocSeq : (rows.map ChunkRow.seq).Nodup

variable {ω : Type}

/-- No chunks. -/
def ChunkTable.empty : ChunkTable ω := ⟨[], List.nodup_nil, List.nodup_nil⟩

/-! ## 3. The world of one document -/

/-- The two objects below `documents/{id}/`: `original{ext}` and `normalized.json`. -/
inductive ObjectKey where
  | original | normalized
  deriving DecidableEq, Repr

/-- A Celery message for this document: the task, `request.retries` and the countdown it was
scheduled with. -/
structure Message where
  stage : Stage
  retries : Nat := 0
  countdown : Nat := 0
  deriving DecidableEq, Repr

/-- Everything the pipeline shares about one document.  `doc = none` is a deleted row; `sent`
holds every message ever handed to the broker, since a broker that delivers at least once may
deliver any of them again; `nextId` is where `new_id` stands. -/
structure World (ω : Type) where
  doc : Option DocRow
  chunks : ChunkTable ω
  jobs : Stage → Option JobRow
  objects : ObjectKey → Option Bytes
  sent : List Message
  purgeSent : Bool
  nextId : Id

/-- The status, if the row is there. -/
def World.status (w : World ω) : Option DocStatus := w.doc.map DocRow.status

/-- `count_unembedded = 0`: every chunk row has a non-null embedding. -/
def World.AllEmbedded (w : World ω) : Prop := ∀ c ∈ w.chunks.rows, c.embedding ≠ none

end AtlasKnowledge.Pipeline
