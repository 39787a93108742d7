/-
# The repositories and the service's transactions

The SQL of `DocumentRepository`, `ChunkRepository` and `IngestionJobRepository` as functions on
the world of one document, and over them the three committed transactions of
`IngestionService`: `_claim`, `_succeed` and `_fail`.

A transaction is one function: it commits whole or not at all.  `none` is the case in which it
does not commit, because the claim matched no row or because the row was deleted and a foreign
key to it is violated.
-/
import AtlasKnowledge.Pipeline.Data
import Mathlib.Data.List.Sort
import Mathlib.Data.List.Nodup

namespace AtlasKnowledge.Pipeline

variable {ω : Type}

/-! ## 1. `DocumentRepository` -/

/-- `claim`: the conditional update.  `none` is a row count of 0. -/
def World.claim (w : World ω) (allowedFrom : List DocStatus) (claimTo : DocStatus) :
    Option (World ω) :=
  match w.doc with
  | some d =>
    if d.status ∈ allowedFrom then
      some { w with doc := some { d with status := claimTo, error := none } }
    else none
  | none => none

/-- `set_status`: unconditional, and it leaves `error` as it is. -/
def World.setStatus (w : World ω) (status : DocStatus) : World ω :=
  { w with doc := w.doc.map fun d => { d with status := status } }

/-- `set_failed`: unconditional. -/
def World.setFailed (w : World ω) (error : String) : World ω :=
  { w with doc := w.doc.map fun d => { d with status := .failed, error := some error } }

/-! ## 2. `IngestionJobRepository` -/

/-- The upsert on `ux_jobs_doc_stage`. -/
def World.upsertJob (w : World ω) (stage : Stage) (job : JobRow) : World ω :=
  { w with jobs := fun s => if s = stage then some job else w.jobs s }

/-- `mark_running`: a new row starts at one attempt, an old one counts one more. -/
def World.markRunning (w : World ω) (stage : Stage) : World ω :=
  w.upsertJob stage
    { status := .running, attempts := ((w.jobs stage).map JobRow.attempts).getD 0 + 1 }

/-- `mark_finished`: the attempts of an old row stay. -/
def World.markFinished (w : World ω) (stage : Stage) (status : JobStatus)
    (error : Option String) : World ω :=
  w.upsertJob stage
    { status := status, attempts := ((w.jobs stage).map JobRow.attempts).getD 1, error := error }

/-- `first_failed_stage`: the earliest stage whose job failed. -/
def World.firstFailedStage (w : World ω) : Option Stage :=
  stageOrder.find? fun s => (w.jobs s).map JobRow.status = some .failed

/-! ## 3. `ChunkRepository` -/

/-- The rows `replace_for_document` inserts; `new_id` is called once a draft. -/
def insertRows (nextId : Id) (drafts : List ChunkDraft) : List (ChunkRow ω) :=
  drafts.zipIdx.map fun p =>
    { id := nextId + p.2, seq := p.1.seq, text := p.1.text, tokens := p.1.tokens, info := p.1.info }

theorem insertRows_id (nextId : Id) (drafts : List ChunkDraft) :
    (insertRows (ω := ω) nextId drafts).map ChunkRow.id
      = (List.range drafts.length).map (nextId + ·) := by
  rw [insertRows, List.map_map, List.range_eq_range', ← List.zipIdx_map_snd 0 drafts, List.map_map]
  rfl

theorem insertRows_seq (nextId : Id) (drafts : List ChunkDraft) :
    (insertRows (ω := ω) nextId drafts).map ChunkRow.seq = drafts.map ChunkDraft.seq := by
  rw [insertRows, List.map_map]
  conv_rhs => rw [← List.zipIdx_map_fst 0 drafts, List.map_map]
  rfl

theorem insertRows_embedding (nextId : Id) (drafts : List ChunkDraft) {c : ChunkRow ω}
    (hc : c ∈ insertRows nextId drafts) : c.embedding = none := by
  obtain ⟨p, -, rfl⟩ := List.mem_map.mp hc
  rfl

/-- `replace_for_document`: delete, then insert; the new rows have no embedding yet. -/
def World.replaceForDocument (w : World ω) (drafts : Drafts) : World ω :=
  { w with
    chunks :=
      { rows := insertRows w.nextId drafts.list
        pk := by
          rw [insertRows_id]
          exact List.nodup_range.map fun _ _ h => Nat.add_left_cancel h
        uxDocSeq := by
          rw [insertRows_seq, drafts.seqs]
          exact List.nodup_range }
    nextId := w.nextId + drafts.list.length }

/-- `list_unembedded`: `embedding IS NULL ORDER BY seq LIMIT limit`. -/
def World.listUnembedded (w : World ω) (limit : Nat) : List (ChunkRow ω) :=
  ((w.chunks.rows.filter fun c => c.embedding.isNone).insertionSort
    fun a b => a.seq ≤ b.seq).take limit

/-- One `UPDATE document_chunks SET embedding, embedding_version WHERE id = chunk_id`. -/
def ChunkTable.setEmbedding (t : ChunkTable ω) (chunkId : Id) (vector : ω) (version : String) :
    ChunkTable ω where
  rows := t.rows.map fun c =>
    if c.id = chunkId then
      { c with embedding := some vector, embeddingVersion := some version } else c
  pk := by
    have h : (t.rows.map fun c => if c.id = chunkId then
        { c with embedding := some vector, embeddingVersion := some version } else c).map
          ChunkRow.id = t.rows.map ChunkRow.id := by
      rw [List.map_map]
      refine List.map_congr_left fun c _ => ?_
      simp only [Function.comp_apply]
      split <;> rfl
    rw [h]
    exact t.pk
  uxDocSeq := by
    have h : (t.rows.map fun c => if c.id = chunkId then
        { c with embedding := some vector, embeddingVersion := some version } else c).map
          ChunkRow.seq = t.rows.map ChunkRow.seq := by
      rw [List.map_map]
      refine List.map_congr_left fun c _ => ?_
      simp only [Function.comp_apply]
      split <;> rfl
    rw [h]
    exact t.uxDocSeq

/-- `set_embeddings`: one update for each item of the dictionary. -/
def World.setEmbeddings (w : World ω) (vectors : List (Id × ω)) (version : String) : World ω :=
  { w with
    chunks := vectors.foldl (fun t v => t.setEmbedding v.1 v.2 version) w.chunks }

/-! ## 4. `ObjectStorage` -/

/-- `put`: an object that is there is replaced. -/
def World.put (w : World ω) (key : ObjectKey) (data : Bytes) : World ω :=
  { w with objects := fun k => if k = key then some data else w.objects k }

/-! ## 5. The transactions of `IngestionService` -/

/-- `_claim`, first transaction: the conditional update and `mark_running`. -/
def claimTx (stage : Stage) (w : World ω) : Option (World ω) :=
  (w.claim stage.allowedFrom stage.claimTo).map fun w' => w'.markRunning stage

/-- `_succeed`.  With the row gone, `ingestion_jobs.document_id` refers to nothing and the
transaction fails. -/
def succeedTx (stage : Stage) (w : World ω) : Option (World ω) :=
  if w.doc.isSome then
    some ((w.markFinished stage .succeeded none).setStatus stage.nextStatus)
  else none

/-- The chunk stage's last transaction: `replace_for_document`, then `_succeed`. -/
def replaceTx (drafts : Drafts) (w : World ω) : Option (World ω) :=
  succeedTx .chunk (w.replaceForDocument drafts)

/-- `_fail`. -/
def failTx (stage : Stage) (error : String) (w : World ω) : Option (World ω) :=
  if w.doc.isSome then
    some ((w.markFinished stage .failed (some error)).setFailed error)
  else none

/-! ## 6. What the transactions change

One lemma for each transaction says when it commits and what it leaves; the others say what it
does not touch. -/

section Frames

variable (w : World ω) (stage : Stage) (job : JobRow) (status : DocStatus) (error : String)
  (drafts : Drafts)

@[simp] theorem setStatus_chunks : (w.setStatus status).chunks = w.chunks := rfl
@[simp] theorem setStatus_sent : (w.setStatus status).sent = w.sent := rfl
@[simp] theorem setStatus_objects : (w.setStatus status).objects = w.objects := rfl
@[simp] theorem setStatus_doc :
    (w.setStatus status).doc = w.doc.map fun d => { d with status := status } := rfl
@[simp] theorem setFailed_chunks : (w.setFailed error).chunks = w.chunks := rfl
@[simp] theorem setFailed_sent : (w.setFailed error).sent = w.sent := rfl
@[simp] theorem setFailed_objects : (w.setFailed error).objects = w.objects := rfl
@[simp] theorem setFailed_doc : (w.setFailed error).doc
    = w.doc.map fun d => { d with status := .failed, error := some error } := rfl
@[simp] theorem upsertJob_doc : (w.upsertJob stage job).doc = w.doc := rfl
@[simp] theorem upsertJob_chunks : (w.upsertJob stage job).chunks = w.chunks := rfl
@[simp] theorem upsertJob_sent : (w.upsertJob stage job).sent = w.sent := rfl
@[simp] theorem upsertJob_objects : (w.upsertJob stage job).objects = w.objects := rfl
@[simp] theorem replaceForDocument_doc : (w.replaceForDocument drafts).doc = w.doc := rfl
@[simp] theorem replaceForDocument_sent : (w.replaceForDocument drafts).sent = w.sent := rfl
@[simp] theorem replaceForDocument_objects :
    (w.replaceForDocument drafts).objects = w.objects := rfl
@[simp] theorem replaceForDocument_rows :
    (w.replaceForDocument drafts).chunks.rows = insertRows w.nextId drafts.list := rfl
@[simp] theorem setEmbeddings_doc (vectors : List (Id × ω)) (version : String) :
    (w.setEmbeddings vectors version).doc = w.doc := rfl
@[simp] theorem setEmbeddings_sent (vectors : List (Id × ω)) (version : String) :
    (w.setEmbeddings vectors version).sent = w.sent := rfl

end Frames

variable {w w' : World ω} {stage : Stage} {error : String} {drafts : Drafts}

/-- **A claim that commits.**  The document was in one of the stage's source statuses and is now
in its running status; nothing else but the job row has changed. -/
theorem claimTx_eq_some (h : claimTx stage w = some w') :
    ∃ d, w.doc = some d ∧ d.status ∈ stage.allowedFrom ∧
      w'.doc = some { d with status := stage.claimTo, error := none } ∧
      w'.chunks = w.chunks ∧ w'.sent = w.sent ∧ w'.objects = w.objects ∧
      w'.nextId = w.nextId := by
  obtain ⟨w₁, h₁, rfl⟩ := Option.map_eq_some_iff.mp h
  unfold World.claim at h₁
  split at h₁
  · rename_i d hd
    split at h₁
    · rename_i hmem
      obtain rfl := Option.some.inj h₁
      exact ⟨d, hd, hmem, rfl, rfl, rfl, rfl, rfl⟩
    · exact absurd h₁ (by simp)
  · exact absurd h₁ (by simp)

/-- A claim commits from every source status of its stage. -/
theorem claimTx_isSome {d : DocRow} (hd : w.doc = some d) (hmem : d.status ∈ stage.allowedFrom) :
    ∃ w', claimTx stage w = some w' := by
  simp [claimTx, World.claim, hd, hmem]

/-- A claim from any other status matches no row. -/
theorem claimTx_eq_none {d : DocRow} (hd : w.doc = some d)
    (hmem : d.status ∉ stage.allowedFrom) : claimTx stage w = none := by
  simp [claimTx, World.claim, hd, hmem]

/-- **A `_succeed` that commits** puts the document in the stage's next status, whatever its
status was. -/
theorem succeedTx_eq_some (h : succeedTx stage w = some w') :
    ∃ d, w.doc = some d ∧ w'.doc = some { d with status := stage.nextStatus } ∧
      w'.chunks = w.chunks ∧ w'.sent = w.sent ∧ w'.objects = w.objects := by
  unfold succeedTx at h
  split at h
  · rename_i hd
    obtain ⟨d, hd⟩ := Option.isSome_iff_exists.mp hd
    obtain rfl := Option.some.inj h
    exact ⟨d, hd, by simp [World.markFinished, hd], rfl, rfl, rfl⟩
  · exact absurd h (by simp)

/-- **A chunk stage that commits** has replaced the rows and moved the document on in one
transaction. -/
theorem replaceTx_eq_some (h : replaceTx drafts w = some w') :
    ∃ d, w.doc = some d ∧ w'.doc = some { d with status := .embedding } ∧
      w'.chunks.rows = insertRows w.nextId drafts.list ∧ w'.sent = w.sent ∧
      w'.objects = w.objects := by
  obtain ⟨d, hd, hd', hc, hs, ho⟩ := succeedTx_eq_some h
  exact ⟨d, hd, hd', by rw [hc, replaceForDocument_rows], hs, ho⟩

/-- **A `_fail` that commits** marks the document failed, whatever its status was. -/
theorem failTx_eq_some (h : failTx stage error w = some w') :
    ∃ d, w.doc = some d ∧ w'.doc = some { d with status := .failed, error := some error } ∧
      w'.chunks = w.chunks ∧ w'.sent = w.sent ∧ w'.objects = w.objects := by
  unfold failTx at h
  split at h
  · rename_i hd
    obtain ⟨d, hd⟩ := Option.isSome_iff_exists.mp hd
    obtain rfl := Option.some.inj h
    exact ⟨d, hd, by simp [World.markFinished, hd], rfl, rfl, rfl⟩
  · exact absurd h (by simp)

theorem claimTx_status (h : claimTx stage w = some w') : w'.status = some stage.claimTo := by
  obtain ⟨d, -, -, hdoc, -⟩ := claimTx_eq_some h
  rw [World.status, hdoc]
  rfl

theorem succeedTx_status (h : succeedTx stage w = some w') :
    w'.status = some stage.nextStatus := by
  obtain ⟨d, -, hdoc, -⟩ := succeedTx_eq_some h
  rw [World.status, hdoc]
  rfl

theorem replaceTx_status (h : replaceTx drafts w = some w') : w'.status = some .embedding :=
  succeedTx_status h

theorem failTx_status (h : failTx stage error w = some w') : w'.status = some .failed := by
  obtain ⟨d, -, hdoc, -⟩ := failTx_eq_some h
  rw [World.status, hdoc]
  rfl

/-- With the row there, a `_succeed` commits. -/
theorem succeedTx_isSome {d : DocRow} (hd : w.doc = some d) :
    ∃ w', succeedTx stage w = some w' := by simp [succeedTx, hd]

/-- With the row there, a `_fail` commits. -/
theorem failTx_isSome {d : DocRow} (hd : w.doc = some d) :
    ∃ w', failTx stage error w = some w' := by simp [failTx, hd]

/-- Without it, neither does. -/
theorem succeedTx_eq_none (h : succeedTx stage w = none) : w.doc = none := by
  unfold succeedTx at h
  split at h
  · exact absurd h (by simp)
  · rename_i hdoc
    simpa using hdoc

theorem failTx_eq_none (h : failTx stage error w = none) : w.doc = none := by
  unfold failTx at h
  split at h
  · exact absurd h (by simp)
  · rename_i hdoc
    simpa using hdoc

/-! ## 7. What the batch cursor sees -/

/-- A batch holds unembedded rows of the table. -/
theorem mem_listUnembedded {limit : Nat} {c : ChunkRow ω} (h : c ∈ w.listUnembedded limit) :
    c ∈ w.chunks.rows ∧ c.embedding = none := by
  have hc := List.mem_of_mem_take h
  rw [List.mem_insertionSort, List.mem_filter] at hc
  exact ⟨hc.1, by simpa using hc.2⟩

/-- **An empty batch means there is nothing left**, as long as the batch size is positive. -/
theorem listUnembedded_eq_nil {limit : Nat} (hlimit : 1 ≤ limit) :
    w.listUnembedded limit = [] ↔ w.AllEmbedded := by
  have hsort : (w.chunks.rows.filter fun c => c.embedding.isNone).insertionSort
      (fun a b => a.seq ≤ b.seq) = [] ↔ w.AllEmbedded := by
    rw [← List.length_eq_zero_iff, List.length_insertionSort, List.length_eq_zero_iff,
      List.filter_eq_nil_iff]
    simp [World.AllEmbedded]
  rw [World.listUnembedded, List.take_eq_nil_iff, hsort]
  constructor
  · rintro (h | h)
    · omega
    · exact h
  · exact Or.inr

/-- Writing an embedding never takes one away. -/
theorem setEmbedding_allEmbedded {t : ChunkTable ω} {chunkId : Id} {vector : ω}
    {version : String} (h : ∀ c ∈ t.rows, c.embedding ≠ none) :
    ∀ c ∈ (t.setEmbedding chunkId vector version).rows, c.embedding ≠ none := by
  intro c hc
  obtain ⟨c', hc', rfl⟩ := List.mem_map.mp hc
  split
  · simp
  · exact h c' hc'

/-- ... nor does `set_embeddings`. -/
theorem setEmbeddings_allEmbedded (h : w.AllEmbedded) (version : String) :
    ∀ vectors : List (Id × ω), (w.setEmbeddings vectors version).AllEmbedded := by
  intro vectors
  simp only [World.AllEmbedded, World.setEmbeddings] at h ⊢
  generalize w.chunks = t at h ⊢
  induction vectors generalizing t with
  | nil => exact h
  | cons v vs ih => exact ih _ (setEmbedding_allEmbedded h)

/-- Freshly inserted rows are all embedded only when there are none. -/
theorem insertRows_allEmbedded {nextId : Id} {ds : List ChunkDraft} :
    (∀ c ∈ insertRows (ω := ω) nextId ds, c.embedding ≠ none) ↔ ds = [] := by
  constructor
  · intro h
    cases ds with
    | nil => rfl
    | cons d ds =>
      have hmem : (insertRows (ω := ω) nextId (d :: ds)).head (by simp [insertRows])
          ∈ insertRows nextId (d :: ds) := List.head_mem _
      exact absurd (insertRows_embedding nextId (d :: ds) hmem) (h _ hmem)
  · rintro rfl c hc
    exact absurd hc (by simp [insertRows])

end AtlasKnowledge.Pipeline
