/-
# Hybrid search

`PgVectorChunkIndex` (`infrastructure/vector/pgvector_index.py`).  One statement ranks the chunks
that a user may search: a vector leg and, unless no query token is left, a full-text leg, each
numbered and limited, fused by reciprocal rank; a second statement loads what was ranked.

PostgreSQL's operators, pgvector and the driver are an `Engine`.  The vector leg is the exact
one.  `Ties` is how each of the sorts breaks its ties.
-/
import AtlasKnowledge.Lib.Dict
import AtlasKnowledge.Lib.Relation
import AtlasKnowledge.Lib.Str
import AtlasKnowledge.Services.Db
import Mathlib.Algebra.Field.Rat
import Mathlib.Order.OrderDual

namespace AtlasKnowledge.Retrieval

open Relation
open Services (DocumentRow SourceRow)

/-! ## 1. Rows

`E` is a query embedding, `V` a vector of the database, `J` a JSON value, `T` a `tsvector`, `Q` a
`tsquery`, `F` a Python float. -/

variable {E V J T Q F δ κ : Type} [LinearOrder δ] [LinearOrder κ]

/-- `DocumentChunk`; `info` is its `meta`. -/
structure ChunkRow (V J T : Type) where
  id : Uuid
  documentId : Uuid
  text : Text
  info : J
  embedding : Option V
  tsv : T

/-- The three tables that a search reads. -/
structure Db (V J T : Type) where
  chunks : Table (ChunkRow V J T) ChunkRow.id
  documents : Table DocumentRow DocumentRow.id
  sources : Table SourceRow SourceRow.id

/-- `RetrievedChunk`. -/
structure RetrievedChunk (J F : Type) where
  chunkId : Uuid
  documentId : Uuid
  filename : Text
  text : Text
  score : F
  rank : Nat
  info : J
  deriving DecidableEq

/-- What a search raises. -/
inductive SearchError where
  | scanParams | vector | int8 | tsquery | negativeLimit | divisionByZero | keyError
  deriving DecidableEq, Repr

/-- What PostgreSQL and pgvector decide. -/
structure Engine (E V J T Q F δ κ : Type) [LinearOrder δ] [LinearOrder κ] where
  /-- `set_config('hnsw.ef_search', ...)` takes the value. -/
  takesEfSearch : Int → Bool
  /-- The bind of `Vector(EMBEDDING_DIM)`; `none` if the dimension is another one. -/
  toVector : E → Option V
  /-- `->>`. -/
  field : J → String → Option String
  /-- `<=>`. -/
  distance : V → V → δ
  /-- `to_tsquery('simple', ...)`; `none` is a syntax error. -/
  toTsquery : Text → Option Q
  /-- `@@`. -/
  hits : T → Q → Bool
  /-- `ts_rank_cd`. -/
  rankCd : T → Q → κ
  /-- `1.0/n`. -/
  reciprocal : Int → Rat
  /-- `float`. -/
  float : Rat → F

variable (engine : Engine E V J T Q F δ κ)

/-- The sorts: of the window of the vector leg and of the leg, of the full-text leg and of its
window, and of the scores. -/
structure Ties where
  vecWindow : ∀ qvec, OrderBy (ChunkRow V J T × V) fun c => engine.distance c.2 qvec
  vec : ∀ qvec, OrderBy ((ChunkRow V J T × V) × Nat) fun c => engine.distance c.1.2 qvec
  fts : OrderBy (Uuid × κ) fun c => OrderDual.toDual c.2
  ftsWindow : OrderBy (Uuid × κ) fun c => OrderDual.toDual c.2
  score : OrderBy (Uuid × Rat) fun c => OrderDual.toDual c.2

/-- The attributes of a `PgVectorChunkIndex`. -/
structure Index where
  topK : Int
  rrfK : Int
  efSearch : Int

/-- The arguments of `hybrid_search`. -/
structure Request (E : Type) where
  userId : Uuid
  sourceIds : Option (List Uuid)
  queryTokens : Text
  queryEmbedding : E
  topN : Int

/-! ## 2. `build_tsquery` -/

/-- A token in double quotes. -/
def escaped (token : Text) : Text :=
  '"' :: Scan.replace ['"'] ['\\', '"'] (Scan.replace ['\\'] ['\\', '\\'] token) ++ ['"']

/-- `build_tsquery`. -/
def buildTsquery (queryTokens : Text) : Text :=
  let seen := ((Str.words queryTokens).filter fun token => 1 < token.length).eraseDups
  [' ', '|', ' '].intercalate (seen.map escaped)

/-! ## 3. The statements -/

variable (ties : Ties engine) (db : Db V J T)

/-- The `WHERE` of both legs. -/
def passes (userId : Uuid) (filterIds : List Uuid) (c : ChunkRow V J T) (d : DocumentRow)
    (s : SourceRow) : Bool :=
  d.status = .ready && s.enabled &&
    (d.uploadedBy = userId || engine.field c.info "kind" = some "law") &&
    (filterIds.isEmpty || filterIds.contains d.sourceId)

/-- The chunks both legs choose from: `document_chunks`, joined with its documents and their
sources, under the `WHERE`. -/
def candidates (userId : Uuid) (filterIds : List Uuid) : List (ChunkRow V J T) :=
  db.chunks.select fun c =>
    (db.documents.selectOne fun d => d.id = c.documentId).any fun d =>
      (db.sources.selectOne fun s => s.id = d.sourceId).any fun s =>
        passes engine userId filterIds c d s

/-- A value of the type `bigint`. -/
def int8 (n : Int) : Except SearchError Int :=
  if -2 ^ 63 ≤ n ∧ n < 2 ^ 63 then .ok n else .error .int8

variable {engine}

/-- `_VEC_CTE`. -/
def vec (topK : Int) (qvec : V) (rows : List (ChunkRow V J T)) :
    Except SearchError (List (Uuid × Nat)) :=
  let embedded := rows.filterMap fun c => c.embedding.map fun v => (c, v)
  let numbered := number ((ties.vecWindow qvec).sort embedded)
  (limit .negativeLimit topK (.ok ((ties.vec qvec).sort numbered))).map fun rows =>
    rows.map fun r => (r.1.1.id, r.2)

/-- `_FTS_CTE`. -/
def fts (topK : Int) (q : Q) (rows : List (ChunkRow V J T)) :
    Except SearchError (List (Uuid × Nat)) :=
  let hits := rows.filter fun c => engine.hits c.tsv q
  let ranked := hits.map fun c => (c.id, engine.rankCd c.tsv q)
  (limit .negativeLimit topK (.ok (ties.fts.sort ranked))).map fun rows =>
    (number (ties.ftsWindow.sort rows)).map fun r => (r.1.1, r.2)

variable (engine)

/-- `1.0/(:rrf_k + r)`. -/
def reciprocalRank (rrfK : Int) (r : Nat) : Except SearchError Rat := do
  let n ← int8 (rrfK + r)
  if n = 0 then .error .divisionByZero else .ok (engine.reciprocal n)

/-- `coalesce(1.0/(:rrf_k + r), 0)`. -/
def coalescedRank (rrfK : Int) : Option Nat → Except SearchError Rat
  | none => .ok 0
  | some r => reciprocalRank engine rrfK r

/-- The columns of a joined row. -/
def fusedRow (rrfK : Int) (x : Joined (Uuid × Nat) (Uuid × Nat)) :
    Except SearchError (Uuid × Rat) := do
  let v ← coalescedRank engine rrfK (x.fst?.map Prod.snd)
  let f ← coalescedRank engine rrfK (x.snd?.map Prod.snd)
  .ok (x.key Prod.fst Prod.fst, v + f)

/-- The columns of a row of the vector leg alone. -/
def vecOnlyRow (rrfK : Int) (x : Uuid × Nat) : Except SearchError (Uuid × Rat) := do
  .ok (x.1, ← reciprocalRank engine rrfK x.2)

variable {engine}

/-- `_RRF_SELECT`. -/
def rrfSelect (rrfK topN : Int) (vec fts : Except SearchError (List (Uuid × Nat))) :
    Except SearchError (List (Uuid × Rat)) :=
  limit .negativeLimit topN do
    let rows ← (fullJoin Prod.fst Prod.fst (← vec) (← fts)).mapM (fusedRow engine rrfK)
    .ok (ties.score.sort rows)

/-- `_VEC_ONLY_SELECT`. -/
def vecOnlySelect (rrfK topN : Int) (vec : Except SearchError (List (Uuid × Nat))) :
    Except SearchError (List (Uuid × Rat)) :=
  limit .negativeLimit topN do
    let rows ← (← vec).mapM (vecOnlyRow engine rrfK)
    .ok (ties.score.sort rows)

/-- The ranked ids and scores of the statement that `_statement` builds, over the candidates. -/
def ranked (index : Index) (request : Request E) (rows : List (ChunkRow V J T)) :
    Except SearchError (List (Uuid × Rat)) := do
  let some qvec := engine.toVector request.queryEmbedding | .error .vector
  let topK ← int8 index.topK
  let rrfK ← int8 index.rrfK
  let topN ← int8 request.topN
  let tsquery := buildTsquery request.queryTokens
  if tsquery = [] then vecOnlySelect ties rrfK topN (vec ties topK qvec rows)
  else
    let some q := engine.toTsquery tsquery | .error .tsquery
    rrfSelect ties rrfK topN (vec ties topK qvec rows) (fts ties topK q rows)

/-- `_LOAD_CHUNKS`: the chunks with the filenames of their documents. -/
def loadChunks (ids : List Uuid) : List (ChunkRow V J T × Text) :=
  (db.chunks.select fun c => ids.contains c.id).filterMap fun c =>
    (db.documents.selectOne fun d => d.id = c.documentId).map fun d => (c, d.filename)

/-! ## 4. `hybrid_search` -/

/-- A loaded row as a `RetrievedChunk`. -/
def retrieved (scores : Dict Uuid F) (row : (ChunkRow V J T × Text) × Nat) :
    Except SearchError (RetrievedChunk J F) :=
  match scores.get? row.1.1.id with
  | none => .error .keyError
  | some score =>
    .ok
      { chunkId := row.1.1.id, documentId := row.1.1.documentId, filename := row.1.2,
        text := row.1.1.text, score := score, rank := row.2, info := row.1.1.info }

/-- What `hybrid_search` does with the ranked rows, in the database that it loads the chunks
from. -/
def loadRanked (engine : Engine E V J T Q F δ κ) (later : Db V J T) (ranked : List (Uuid × Rat)) :
    Except SearchError (List (RetrievedChunk J F)) :=
  if ranked.isEmpty then .ok []
  else
    let scores := Dict.ofRows (ranked.map fun r => (r.1, engine.float r.2))
    let rows := loadChunks later scores.keys
    let byId := Dict.ofRows (rows.map fun r => (r.1.id, r))
    (number (scores.keys.filterMap byId.get?)).mapM (retrieved scores)

/-- `hybrid_search`, when the database has become `later` before the chunks are loaded. -/
def hybridSearchBetween (later : Db V J T) (index : Index) (request : Request E) :
    Except SearchError (List (RetrievedChunk J F)) := do
  let filterIds := request.sourceIds.getD []
  if ! engine.takesEfSearch index.efSearch then .error .scanParams
  else
    let ranked ← ranked ties index request (candidates engine db request.userId filterIds)
    loadRanked engine later ranked

/-- `hybrid_search`. -/
def hybridSearch (index : Index) (request : Request E) :
    Except SearchError (List (RetrievedChunk J F)) :=
  hybridSearchBetween ties db db index request

end AtlasKnowledge.Retrieval
