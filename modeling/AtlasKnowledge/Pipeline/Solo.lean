/-
# One execution on its own, and what a clean one achieves

The retry policy of the task shell is about executions of one stage that follow each other:
each starts from what the one before has left, and nothing else touches the document.

What such an execution achieves when nothing goes wrong is a function of the document alone
(`outcome`): the status, the chunks up to their ids and the messages for other stages.  Every
step before the last commit leaves that function's value as it is (`progress_step`), which is
why an attempt that fails half way can be repeated; and an execution in which nothing goes
wrong ends with exactly that value (`clean_spec`), with the measure `cost` to show that it ends.
-/
import AtlasKnowledge.Pipeline.Task
import AtlasKnowledge.Lib.Transition

namespace AtlasKnowledge.Pipeline

open Transition

variable {ω : Type}

/-! ## 1. Executions on their own -/

/-- A world and one execution in it. -/
abbrev Solo (ω : Type) (stage : Stage) := World ω × Pc ω stage

/-- An execution that has the world to itself. -/
def soloStep (A : Adapters) (retries : Nat) {stage : Stage} (x : Solo ω stage) (c : Choice ω) :
    Option (Solo ω stage) := stepPc A retries x.1 x.2 c

/-- The choice under which nothing goes wrong; `vec` is what the provider embeds a text as. -/
def calmChoice (vec : Text → ω) : {stage : Stage} → Pc ω stage → Choice ω
  | _, .embedding batch => .reply (.ok (batch.map fun c => vec c.text))
  | _, _ => .go

/-- The provider replies with an error or with the vectors of the texts it was sent. -/
def Faithful (vec : Text → ω) : {stage : Stage} → Pc ω stage → Choice ω → Prop
  | _, .embedding batch, .reply (.ok vectors) => vectors = batch.map fun c => vec c.text
  | _, _, _ => True

def calmStep (A : Adapters) (vec : Text → ω) (retries : Nat) {stage : Stage}
    (x : Solo ω stage) : Option (Solo ω stage) :=
  soloStep A retries x (calmChoice vec x.2)

/-- The rows that still have no embedding. -/
def World.unembedded (w : World ω) : Nat := w.chunks.rows.countP fun c => c.embedding.isNone

/-- How many steps a clean execution still has at most. -/
def cost (w : World ω) : {stage : Stage} → Pc ω stage → Nat
  | _, .start => 3 * w.unembedded + 8
  | _, .claimed => 3 * w.unembedded + 7
  | _, .readingOriginal _ => 5
  | _, .writingNormalized _ => 4
  | _, .finishingParse => 3
  | _, .readingNormalized _ => 5
  | _, .readingSource _ _ => 4
  | _, .replacing _ => 3
  | _, .batching => 3 * w.unembedded + 3
  | _, .embedding _ => 3 * w.unembedded + 2
  | _, .storing _ _ => 3 * w.unembedded + 1
  | _, .finishingEmbed => 2
  | _, .failing _ => 2
  | _, .enqueueing _ => 2
  | _, .closing => 1
  | _, .marking _ => 1
  | _, .ended _ => 0

/-- A whole execution in which nothing goes wrong. -/
def cleanExec (A : Adapters) (vec : Text → ω) (stage : Stage) (retries : Nat) (w : World ω) :
    Solo ω stage :=
  drive (calmStep A vec retries) (cost w (.start : Pc ω stage)) (w, .start)

/-! ## 2. What is compared -/

/-- The rows up to their ids. -/
def contents (rows : List (ChunkRow ω)) : List (ChunkRow ω) := rows.map fun c => { c with id := 0 }

/-- The messages for other stages. -/
def World.followUps (w : World ω) (stage : Stage) : List Message :=
  w.sent.filter fun m => m.stage ≠ stage

/-- What two executions of a stage are compared by. -/
structure Observed (ω : Type) where
  status : Option DocStatus
  chunks : List (ChunkRow ω)
  followUps : List Message

def World.observed (w : World ω) (stage : Stage) : Observed ω :=
  ⟨w.status, contents w.chunks.rows, w.followUps stage⟩

/-! ## 3. What a clean execution achieves -/

/-- What the parser makes of the original file. -/
def parsed (A : Adapters) (w : World ω) : Option NormalizedDocument := do
  let d ← w.doc
  let data ← w.objects .original
  (A.parse d.mime data d.filename).toOption

/-- What the chunking strategy makes of the parse result. -/
def drafted (A : Adapters) (w : World ω) : Option Drafts := do
  let d ← w.doc
  let raw ← w.objects .normalized
  let normalized ← (A.validate raw).toOption
  some (A.buildChunks normalized ((A.sourceType d.sourceId).getD "upload"))

/-- The row with the embedding of its text. -/
def embedRow (vec : Text → ω) (version : String) (c : ChunkRow ω) : ChunkRow ω :=
  { c with embedding := some (vec c.text), embeddingVersion := some version }

/-- The row as the embed stage leaves it: an embedding that is there stays. -/
def fillRow (vec : Text → ω) (version : String) (c : ChunkRow ω) : ChunkRow ω :=
  if c.embedding.isNone then embedRow vec version c else c

/-- What a stage that fails for good leaves. -/
def World.failedOutcome (w : World ω) (stage : Stage) : Observed ω :=
  { w.observed stage with status := some .failed }

/-- What a clean execution of the stage leaves, as a function of what it finds. -/
def outcome (A : Adapters) (vec : Text → ω) : Stage → World ω → Observed ω
  | .parse, w =>
    match parsed A w with
    | some _ => ⟨some .chunking, contents w.chunks.rows,
        w.followUps .parse ++ [{ stage := .chunk }]⟩
    | none => w.failedOutcome .parse
  | .chunk, w =>
    match drafted A w with
    | some drafts => ⟨some .embedding, contents (insertRows 0 drafts.list),
        w.followUps .chunk ++ [{ stage := .embed }]⟩
    | none => w.failedOutcome .chunk
  | .embed, w => ⟨some .ready, contents (w.chunks.rows.map (fillRow vec A.version)),
      w.followUps .embed⟩

/-- What a stage reads is the same in both worlds. -/
structure SameInputs (stage : Stage) (w w' : World ω) : Prop where
  doc : w'.doc.map (fun d => (d.mime, d.filename, d.sourceId))
    = w.doc.map fun d => (d.mime, d.filename, d.sourceId)
  original : w'.objects .original = w.objects .original
  normalized : stage ≠ .parse → w'.objects .normalized = w.objects .normalized
  chunks : w'.chunks = w.chunks
  followUps : w'.followUps stage = w.followUps stage

variable {A : Adapters} {vec : Text → ω} {retries : Nat} {w w' : World ω} {stage : Stage}
  {pc pc' : Pc ω stage} {c : Choice ω}

theorem parsed_congr (hdoc : w'.doc.map (fun d => (d.mime, d.filename, d.sourceId))
      = w.doc.map fun d => (d.mime, d.filename, d.sourceId))
    (horiginal : w'.objects .original = w.objects .original) : parsed A w' = parsed A w := by
  unfold parsed
  rw [horiginal]
  cases hw : w.doc with
  | none =>
    rw [hw] at hdoc
    rw [Option.map_eq_none_iff.mp hdoc]
  | some d =>
    rw [hw] at hdoc
    obtain ⟨d', hd', heq⟩ := Option.map_eq_some_iff.mp hdoc
    obtain ⟨hmime, heq⟩ := Prod.mk.inj heq
    obtain ⟨hname, -⟩ := Prod.mk.inj heq
    simp [hd', hmime, hname]

theorem drafted_congr (hdoc : w'.doc.map (fun d => (d.mime, d.filename, d.sourceId))
      = w.doc.map fun d => (d.mime, d.filename, d.sourceId))
    (hnormalized : w'.objects .normalized = w.objects .normalized) :
    drafted A w' = drafted A w := by
  unfold drafted
  rw [hnormalized]
  cases hw : w.doc with
  | none =>
    rw [hw] at hdoc
    rw [Option.map_eq_none_iff.mp hdoc]
  | some d =>
    rw [hw] at hdoc
    obtain ⟨d', hd', heq⟩ := Option.map_eq_some_iff.mp hdoc
    obtain ⟨-, heq⟩ := Prod.mk.inj heq
    obtain ⟨-, hsource⟩ := Prod.mk.inj heq
    simp [hd', hsource]

/-- **The outcome depends on nothing but what the stage reads.** -/
theorem SameInputs.outcome (h : SameInputs stage w w') :
    outcome A vec stage w' = outcome A vec stage w := by
  cases stage with
  | parse =>
    simp only [Pipeline.outcome, parsed_congr h.doc h.original, World.failedOutcome,
      World.observed, h.chunks, h.followUps]
  | chunk =>
    simp only [Pipeline.outcome, drafted_congr h.doc (h.normalized (by decide)),
      World.failedOutcome, World.observed, h.chunks, h.followUps]
  | embed => simp only [Pipeline.outcome, h.chunks, h.followUps]

/-- A transaction on the row's status alone changes nothing that a stage reads. -/
theorem SameInputs.of_status {d : DocRow} {status : DocStatus} {error : Option String}
    (hd : w.doc = some d) (hd' : w'.doc = some { d with status := status, error := error })
    (hchunks : w'.chunks = w.chunks) (hsent : w'.sent = w.sent)
    (hobjects : w'.objects = w.objects) : SameInputs stage w w' where
  doc := by rw [hd, hd']; rfl
  original := by rw [hobjects]
  normalized := fun _ => by rw [hobjects]
  chunks := hchunks
  followUps := by rw [World.followUps, World.followUps, hsent]

theorem contents_insertRows (nextId : Id) (ds : List ChunkDraft) :
    contents (ω := ω) (insertRows nextId ds) = contents (insertRows 0 ds) := by
  simp [contents, insertRows]

/-! ## 4. One batch -/

/-- Rows of the table without an embedding, at least one. -/
structure Batch (w : World ω) (batch : List (ChunkRow ω)) : Prop where
  nonempty : batch ≠ []
  rows : ∀ c ∈ batch, c ∈ w.chunks.rows
  unembedded : ∀ c ∈ batch, c.embedding = none

/-- Two rows of a table with one id are one row. -/
theorem eq_of_id_eq {t : ChunkTable ω} {c c' : ChunkRow ω} (hc : c ∈ t.rows) (hc' : c' ∈ t.rows)
    (hid : c.id = c'.id) : c = c' := List.inj_on_of_nodup_map t.pk hc hc' hid

/-- **What a batch of updates does to the table.**  The rows whose ids are in the batch get the
embedding of their own text. -/
theorem foldl_setEmbedding_rows (version : String) :
    ∀ (batch : List (ChunkRow ω)) (t : ChunkTable ω),
      (∀ b ∈ batch, ∀ c ∈ t.rows, c.id = b.id → c.text = b.text) →
      (((batch.map ChunkRow.id).zip (batch.map fun c => vec c.text)).foldl
          (fun t v => t.setEmbedding v.1 v.2 version) t).rows
        = t.rows.map fun c =>
            if c.id ∈ batch.map ChunkRow.id then embedRow vec version c else c
  | [], t, _ => by simp
  | b :: batch, t, htext => by
    have hfirst : (t.setEmbedding b.id (vec b.text) version).rows
        = t.rows.map fun c => if c.id = b.id then embedRow vec version c else c := by
      refine List.map_congr_left fun c hc => ?_
      by_cases hid : c.id = b.id
      · have hsame : c.text = b.text := htext b (List.mem_cons_self) c hc hid
        simp only [hid, if_true, embedRow, hsame]
      · simp only [hid, if_false]
    have hrest : ∀ b' ∈ batch, ∀ c ∈ (t.setEmbedding b.id (vec b.text) version).rows,
        c.id = b'.id → c.text = b'.text := by
      intro b' hb' c hc hid
      rw [hfirst] at hc
      obtain ⟨c₀, hc₀, rfl⟩ := List.mem_map.mp hc
      have hkeep : ∀ c₁ : ChunkRow ω,
          (if c₁.id = b.id then embedRow vec version c₁ else c₁).id = c₁.id ∧
          (if c₁.id = b.id then embedRow vec version c₁ else c₁).text = c₁.text := by
        intro c₁
        split <;> exact ⟨rfl, rfl⟩
      rw [(hkeep c₀).1] at hid
      rw [(hkeep c₀).2]
      exact htext b' (List.mem_cons_of_mem _ hb') c₀ hc₀ hid
    simp only [List.map_cons, List.zip_cons_cons, List.foldl_cons]
    rw [foldl_setEmbedding_rows version batch _ hrest, hfirst, List.map_map]
    refine List.map_congr_left fun c _ => ?_
    simp only [Function.comp_apply, List.mem_cons]
    by_cases hid : c.id = b.id
    · simp only [hid, if_true, true_or]
      have hb : (embedRow vec version c).id = b.id := hid
      rw [hb]
      split <;> rfl
    · simp only [hid, if_false, false_or]

/-- The table after a batch, in terms of the rows of the batch. -/
theorem setEmbeddings_rows {batch : List (ChunkRow ω)} (hb : Batch w batch) (version : String) :
    (w.setEmbeddings ((batch.map ChunkRow.id).zip (batch.map fun c => vec c.text))
        version).chunks.rows
      = w.chunks.rows.map fun c =>
          if c.id ∈ batch.map ChunkRow.id then embedRow vec version c else c := by
  refine foldl_setEmbedding_rows version batch w.chunks ?_
  intro b hbatch c hc hid
  rw [eq_of_id_eq hc (hb.rows b hbatch) hid]

/-- A row whose id is in the batch had no embedding. -/
theorem Batch.embedding_none {batch : List (ChunkRow ω)} (hb : Batch w batch) {c : ChunkRow ω}
    (hc : c ∈ w.chunks.rows) (hid : c.id ∈ batch.map ChunkRow.id) : c.embedding = none := by
  obtain ⟨b, hbatch, heq⟩ := List.mem_map.mp hid
  rw [eq_of_id_eq hc (hb.rows b hbatch) heq.symm]
  exact hb.unembedded b hbatch

/-- **A batch takes nothing away from the outcome**: the rows it fills are rows the stage would
have filled with the same. -/
theorem setEmbeddings_filled {batch : List (ChunkRow ω)} (hb : Batch w batch) (version : String) :
    (w.setEmbeddings ((batch.map ChunkRow.id).zip (batch.map fun c => vec c.text))
        version).chunks.rows.map (fillRow vec version)
      = w.chunks.rows.map (fillRow vec version) := by
  rw [setEmbeddings_rows hb, List.map_map]
  refine List.map_congr_left fun c hc => ?_
  simp only [Function.comp_apply]
  split
  · rename_i hid
    simp [fillRow, embedRow, hb.embedding_none hc hid]
  · rfl

/-- A map that takes a property from one element and gives it to none lowers the count. -/
theorem countP_map_lt {α : Type} {p : α → Bool} {f : α → α} {b : α} (hb : p b = true)
    (hfb : p (f b) = false) :
    ∀ {l : List α}, b ∈ l → (∀ x ∈ l, p (f x) = true → p x = true) →
      (l.map f).countP p < l.countP p
  | x :: l, hmem, hkeep => by
    have hle : (l.map f).countP p ≤ l.countP p := by
      rw [List.countP_map]
      exact List.countP_mono_left fun y hy => hkeep y (List.mem_cons_of_mem _ hy)
    rw [List.map_cons, List.countP_cons, List.countP_cons]
    rcases List.mem_cons.mp hmem with rfl | hmem
    · simp only [hfb, hb, Bool.false_eq_true, if_false, if_true]
      omega
    · have hlt := countP_map_lt hb hfb hmem fun y hy => hkeep y (List.mem_cons_of_mem _ hy)
      by_cases hx : p (f x) = true
      · have hpx : p x = true := hkeep x List.mem_cons_self hx
        simp only [hx, hpx, if_true]
        omega
      · simp only [hx, if_false, Bool.false_eq_true]
        omega

/-- A batch leaves fewer rows without an embedding. -/
theorem setEmbeddings_unembedded (vec : Text → ω) {batch : List (ChunkRow ω)}
    (hb : Batch w batch) (version : String) :
    (w.setEmbeddings ((batch.map ChunkRow.id).zip (batch.map fun c => vec c.text))
        version).unembedded < w.unembedded := by
  obtain ⟨b, hbatch⟩ := List.exists_mem_of_ne_nil batch hb.nonempty
  have hid : b.id ∈ batch.map ChunkRow.id := List.mem_map.mpr ⟨b, hbatch, rfl⟩
  rw [World.unembedded, World.unembedded, setEmbeddings_rows hb]
  refine countP_map_lt (b := b) ?_ ?_ (hb.rows b hbatch) ?_
  · simp [hb.unembedded b hbatch]
  · simp [hid, embedRow]
  · intro c _ hnone
    split at hnone
    · exact nomatch hnone
    · exact hnone

/-! ## 5. What every step of an attempt keeps -/

/-- What the stage has in its hands is what it would read again. -/
def Loaded (A : Adapters) (vec : Text → ω) (w : World ω) : {stage : Stage} → Pc ω stage → Prop
  | _, .readingOriginal doc => w.doc = some doc
  | _, .writingNormalized normalized => parsed A w = some normalized
  | _, .finishingParse => ∃ normalized, parsed A w = some normalized
  | _, .readingNormalized doc => w.doc = some doc
  | _, .readingSource doc normalized => w.doc = some doc ∧
    ∃ raw, w.objects .normalized = some raw ∧ A.validate raw = .ok normalized
  | _, .replacing drafts => drafted A w = some drafts
  | _, .embedding batch => Batch w batch
  | _, .storing batch vectors => Batch w batch ∧ vectors = batch.map fun c => vec c.text
  | _, .finishingEmbed => w.AllEmbedded
  | _, _ => True

/-- Between its claim and its last commit the stage stands in its running status, and the
outcome of the stage is still what it was. -/
structure Running (A : Adapters) (vec : Text → ω) (w₀ w : World ω) {stage : Stage}
    (pc : Pc ω stage) : Prop where
  status : w.status = some stage.claimTo
  outcome : outcome A vec stage w = outcome A vec stage w₀
  loaded : Loaded A vec w pc

/-- What holds throughout an attempt that starts in `w₀`. -/
def Progress (A : Adapters) (vec : Text → ω) (w₀ w : World ω) :
    {stage : Stage} → Pc ω stage → Prop
  | stage, .start => w = w₀ ∧ ∃ d, w.doc = some d ∧ d.status ∈ stage.allowedFrom
  | stage, .enqueueing next => next ≠ stage ∧ w.status = some stage.nextStatus ∧
    outcome A vec stage w₀ = { w.observed stage with
      followUps := w.followUps stage ++ [{ stage := next }] }
  | stage, .closing =>
    (w.status = some stage.nextStatus ∧ w.observed stage = outcome A vec stage w₀) ∨
      (w.status = some .failed ∧ outcome A vec stage w = outcome A vec stage w₀)
  | _, .marking _ => True
  | _, .ended _ => True
  | _, pc => Running A vec w₀ w pc

variable {w₀ : World ω}

theorem exists_doc {status : DocStatus} (h : w.status = some status) :
    ∃ d, w.doc = some d ∧ d.status = status := Option.map_eq_some_iff.mp h

/-- The shell's exception handling leaves the stage behind. -/
theorem progress_handled (hmark : pc'.isMarking = true ∨ ∃ how, pc' = .ended how) :
    Progress A vec w₀ w' pc' := by
  rcases hmark with hmark | ⟨how, rfl⟩
  · cases pc' with
    | marking error => exact trivial
    | _ => exact absurd hmark (by simp [Pc.isMarking])
  · exact trivial

/-- The claim. -/
theorem progress_claim (A : Adapters) (vec : Text → ω) {d : DocRow} (hd : w.doc = some d)
    (hmem : d.status ∈ stage.allowedFrom) :
    ∃ w', claimTx stage w = some w' ∧ Progress A vec w w' (.claimed : Pc ω stage) := by
  obtain ⟨w', hclaim⟩ : ∃ w', claimTx stage w = some w' := claimTx_isSome hd hmem
  obtain ⟨d', hd₁, -, hd', hchunks, hsent, hobjects, -⟩ := claimTx_eq_some hclaim
  have hsame : SameInputs stage w w' := SameInputs.of_status hd₁ hd' hchunks hsent hobjects
  exact ⟨w', hclaim, claimTx_status hclaim, hsame.outcome, trivial⟩

/-- The row of the document leads into the stage. -/
theorem progress_afterGet {doc : DocRow} (hp : Running A vec w₀ w (.claimed : Pc ω stage))
    (hd : w.doc = some doc) : Progress A vec w₀ w (afterGet stage doc : Pc ω stage) := by
  cases stage with
  | parse => exact ⟨hp.status, hp.outcome, hd⟩
  | chunk => exact ⟨hp.status, hp.outcome, hd⟩
  | embed => exact ⟨hp.status, hp.outcome, trivial⟩

theorem progress_readOriginal {doc : DocRow} (hp : Running A vec w₀ w (.readingOriginal doc)) :
    Progress A vec w₀ w (readOriginal A doc w) := by
  have hd : w.doc = some doc := hp.loaded
  unfold readOriginal
  cases hdata : w.objects .original with
  | none => exact ⟨hp.status, hp.outcome, trivial⟩
  | some data =>
    cases hparse : A.parse doc.mime data doc.filename with
    | error message =>
      simp only [hparse]
      exact ⟨hp.status, hp.outcome, trivial⟩
    | ok normalized =>
      have hparsed : parsed A w = some normalized := by
        simp [parsed, hd, hdata, hparse, Except.toOption]
      simp only [hparse]
      exact ⟨hp.status, hp.outcome, hparsed⟩

theorem progress_readNormalized {doc : DocRow}
    (hp : Running A vec w₀ w (.readingNormalized doc)) :
    Progress A vec w₀ w (readNormalized A doc w) := by
  have hd : w.doc = some doc := hp.loaded
  unfold readNormalized
  cases hraw : w.objects .normalized with
  | none => exact ⟨hp.status, hp.outcome, trivial⟩
  | some raw =>
    cases hvalid : A.validate raw with
    | error message =>
      simp only [hvalid]
      exact ⟨hp.status, hp.outcome, trivial⟩
    | ok normalized =>
      simp only [hvalid]
      exact ⟨hp.status, hp.outcome, hd, raw, hraw, hvalid⟩

/-- The write of the parse result is not something the parse stage reads. -/
theorem progress_write {normalized : NormalizedDocument}
    (hp : Running A vec w₀ w (.writingNormalized normalized)) :
    Progress A vec w₀ (w.put .normalized (A.dump normalized)) .finishingParse := by
  have hsame : SameInputs .parse w (w.put .normalized (A.dump normalized)) :=
    ⟨rfl, rfl, fun h => absurd rfl h, rfl, rfl⟩
  refine ⟨hp.status, hsame.outcome.trans hp.outcome, normalized, ?_⟩
  rw [parsed_congr hsame.doc hsame.original]
  exact hp.loaded

/-- The parse stage's last commit. -/
theorem progress_succeedParse (hp : Running A vec w₀ w .finishingParse) :
    ∃ w', succeedTx .parse w = some w' ∧
      Progress A vec w₀ w' (.enqueueing .chunk : Pc ω .parse) := by
  obtain ⟨d, hd, -⟩ := exists_doc hp.status
  obtain ⟨w', hw'⟩ : ∃ w', succeedTx .parse w = some w' := succeedTx_isSome hd
  obtain ⟨-, -, -, hchunks, hsent, -⟩ := succeedTx_eq_some hw'
  obtain ⟨normalized, hparsed⟩ := hp.loaded
  refine ⟨w', hw', by decide, succeedTx_status hw', ?_⟩
  rw [← hp.outcome]
  simp only [outcome, hparsed, World.observed, World.followUps, succeedTx_status hw', hchunks,
    hsent]
  rfl

/-- The chunk stage's last commit. -/
theorem progress_replace {drafts : Drafts} (hp : Running A vec w₀ w (.replacing drafts)) :
    ∃ w', replaceTx drafts w = some w' ∧
      Progress A vec w₀ w' (.enqueueing .embed : Pc ω .chunk) := by
  obtain ⟨d, hd, -⟩ := exists_doc hp.status
  obtain ⟨w', hw'⟩ : ∃ w', replaceTx drafts w = some w' := succeedTx_isSome hd
  obtain ⟨-, -, -, hrows, hsent, -⟩ := replaceTx_eq_some hw'
  have hdrafted : drafted A w = some drafts := hp.loaded
  refine ⟨w', hw', by decide, replaceTx_status hw', ?_⟩
  rw [← hp.outcome]
  simp only [outcome, hdrafted, World.observed, World.followUps, replaceTx_status hw', hrows,
    hsent, contents_insertRows w.nextId]

/-- A batch that was stored. -/
theorem progress_store {batch : List (ChunkRow ω)} {vectors : List ω}
    (hp : Running A vec w₀ w (.storing batch vectors)) :
    Progress A vec w₀
      (w.setEmbeddings ((batch.map ChunkRow.id).zip vectors) A.version) .batching := by
  obtain ⟨hbatch, rfl⟩ := hp.loaded
  refine ⟨hp.status, ?_, trivial⟩
  rw [← hp.outcome]
  simp only [outcome, setEmbeddings_filled hbatch]
  rfl

/-- With every chunk embedded there is nothing left to fill. -/
theorem filled_of_allEmbedded {version : String} (h : w.AllEmbedded) :
    w.chunks.rows.map (fillRow vec version) = w.chunks.rows := by
  conv_rhs => rw [← List.map_id w.chunks.rows]
  refine List.map_congr_left fun c hc => ?_
  obtain ⟨v, hv⟩ := Option.ne_none_iff_exists'.mp (h c hc)
  simp [fillRow, hv]

/-- The embed stage's last commit. -/
theorem progress_succeedEmbed (hp : Running A vec w₀ w .finishingEmbed) :
    ∃ w', succeedTx .embed w = some w' ∧ w'.status = some .ready ∧
      w'.observed .embed = outcome A vec .embed w₀ := by
  obtain ⟨d, hd, -⟩ := exists_doc hp.status
  obtain ⟨w', hw'⟩ : ∃ w', succeedTx .embed w = some w' := succeedTx_isSome hd
  obtain ⟨-, -, -, hchunks, hsent, -⟩ := succeedTx_eq_some hw'
  have hall : w.AllEmbedded := hp.loaded
  refine ⟨w', hw', succeedTx_status hw', ?_⟩
  rw [← hp.outcome]
  simp only [outcome, World.observed, World.followUps, succeedTx_status hw', hchunks, hsent,
    filled_of_allEmbedded hall]
  rfl

/-- The service's own `_fail`. -/
theorem progress_fail {error : String} (hp : Running A vec w₀ w (.failing error : Pc ω stage)) :
    ∃ w', failTx stage error w = some w' ∧ w'.status = some .failed ∧
      SameInputs stage w w' := by
  obtain ⟨d, hd, -⟩ := exists_doc hp.status
  obtain ⟨w', hw'⟩ : ∃ w', failTx stage error w = some w' := failTx_isSome hd
  obtain ⟨d', hd₁, hd', hchunks, hsent, hobjects⟩ := failTx_eq_some hw'
  exact ⟨w', hw', failTx_status hw', SameInputs.of_status hd₁ hd' hchunks hsent hobjects⟩

/-- The message for the next stage completes what is observed. -/
theorem progress_enqueue {next : Stage}
    (hp : Progress A vec w₀ w (.enqueueing next : Pc ω stage)) :
    ({ w with sent := w.sent ++ [{ stage := next }] } : World ω).observed stage
      = outcome A vec stage w₀ := by
  obtain ⟨hne, -, hout⟩ := hp
  rw [hout]
  simp [World.observed, World.followUps, World.status, hne]

/-- **An effect that goes through keeps the attempt's progress.** -/
theorem progress_go (hb : 1 ≤ A.batchSize) (hp : Progress A vec w₀ w pc)
    (h : goPc A retries w pc = some (w', pc')) : Progress A vec w₀ w' pc' := by
  cases pc with
  | start =>
    obtain ⟨rfl, d, hd, hmem⟩ := hp
    obtain ⟨w₁, hclaim, hp₁⟩ := progress_claim A vec hd hmem
    simp only [goPc, hclaim] at h
    obtain ⟨rfl, rfl⟩ := Prod.mk.inj (Option.some.inj h)
    exact hp₁
  | claimed =>
    obtain ⟨d, hd, -⟩ := exists_doc hp.status
    simp only [goPc, hd] at h
    obtain ⟨rfl, rfl⟩ := Prod.mk.inj (Option.some.inj h)
    exact progress_afterGet hp hd
  | readingOriginal doc =>
    obtain ⟨rfl, rfl⟩ := Prod.mk.inj (Option.some.inj h)
    exact progress_readOriginal hp
  | writingNormalized normalized =>
    obtain ⟨rfl, rfl⟩ := Prod.mk.inj (Option.some.inj h)
    exact progress_write hp
  | finishingParse =>
    obtain ⟨w₁, hw₁, hp₁⟩ := progress_succeedParse hp
    simp only [goPc, commitOr, hw₁] at h
    obtain ⟨rfl, rfl⟩ := Prod.mk.inj (Option.some.inj h)
    exact hp₁
  | readingNormalized doc =>
    obtain ⟨rfl, rfl⟩ := Prod.mk.inj (Option.some.inj h)
    exact progress_readNormalized hp
  | readingSource doc normalized =>
    obtain ⟨rfl, rfl⟩ := Prod.mk.inj (Option.some.inj h)
    obtain ⟨hd, raw, hraw, hvalid⟩ := hp.loaded
    exact ⟨hp.status, hp.outcome, by simp [Loaded, drafted, hd, hraw, hvalid, Except.toOption]⟩
  | replacing drafts =>
    obtain ⟨w₁, hw₁, hp₁⟩ := progress_replace hp
    simp only [goPc, commitOr, hw₁] at h
    obtain ⟨rfl, rfl⟩ := Prod.mk.inj (Option.some.inj h)
    exact hp₁
  | batching =>
    obtain h := Option.some.inj h
    split at h
    · rename_i hnil
      obtain ⟨rfl, rfl⟩ := Prod.mk.inj h
      exact ⟨hp.status, hp.outcome, (listUnembedded_eq_nil hb).mp hnil⟩
    · rename_i c cs hbatch
      obtain ⟨rfl, rfl⟩ := Prod.mk.inj h
      have hmem : ∀ c' ∈ c :: cs, c' ∈ w.chunks.rows ∧ c'.embedding = none := by
        rw [← hbatch]
        exact fun _ => mem_listUnembedded
      exact ⟨hp.status, hp.outcome, List.cons_ne_nil _ _, fun c' hc' => (hmem c' hc').1,
        fun c' hc' => (hmem c' hc').2⟩
  | embedding batch => exact absurd h (by simp [goPc])
  | storing batch vectors =>
    obtain ⟨rfl, rfl⟩ := Prod.mk.inj (Option.some.inj h)
    exact progress_store hp
  | finishingEmbed =>
    obtain ⟨w₁, hw₁, hready, hobs⟩ := progress_succeedEmbed hp
    simp only [goPc, commitOr, hw₁] at h
    obtain ⟨rfl, rfl⟩ := Prod.mk.inj (Option.some.inj h)
    exact Or.inl ⟨hready, hobs⟩
  | failing error =>
    obtain ⟨w₁, hw₁, hfailed, hsame⟩ := progress_fail hp
    simp only [goPc, commitOr, hw₁] at h
    obtain ⟨rfl, rfl⟩ := Prod.mk.inj (Option.some.inj h)
    exact Or.inr ⟨hfailed, hsame.outcome.trans hp.outcome⟩
  | enqueueing next =>
    obtain ⟨rfl, rfl⟩ := Prod.mk.inj (Option.some.inj h)
    exact Or.inl ⟨hp.2.1, progress_enqueue hp⟩
  | closing =>
    obtain ⟨rfl, rfl⟩ := Prod.mk.inj (Option.some.inj h)
    exact trivial
  | marking error =>
    obtain h := Option.some.inj h
    split at h <;> obtain ⟨rfl, rfl⟩ := Prod.mk.inj h <;> exact trivial
  | ended how => exact absurd h (by simp [goPc])

/-- The shell's exception handling keeps the progress: it leaves the stage. -/
theorem progress_runStage {e : Exc} (h : runStage stage retries w e = (w', pc')) :
    Progress A vec w₀ w' pc' := by
  have hspec : SameTables w (runStage stage retries w e).1 ∧
      ((runStage stage retries w e).2.isMarking = true ∨
        ∃ how, (runStage stage retries w e).2 = .ended how) := runStage_spec e
  rw [h] at hspec
  exact progress_handled hspec.2

/-- A reply of the provider keeps the progress, if its vectors are those of the texts. -/
theorem progress_reply {r : Except EmbeddingError (List ω)} (hp : Progress A vec w₀ w pc)
    (hfaithful : Faithful vec pc (.reply r)) (h : replyPc retries w r pc = some (w', pc')) :
    Progress A vec w₀ w' pc' := by
  cases pc with
  | embedding batch =>
    obtain h := Option.some.inj h
    cases r with
    | ok vectors =>
      have hvectors : vectors = batch.map fun c => vec c.text := hfaithful
      have hlength : vectors.length = batch.length := by simp [hvectors]
      simp only [hlength, if_true] at h
      obtain ⟨rfl, rfl⟩ := Prod.mk.inj h
      exact ⟨hp.status, hp.outcome, hp.loaded, hvectors⟩
    | error e =>
      simp only at h
      split at h
      · exact progress_runStage h
      · obtain ⟨rfl, rfl⟩ := Prod.mk.inj h
        exact ⟨hp.status, hp.outcome, trivial⟩
  | _ => exact absurd h (by simp [replyPc])

/-- An exception keeps the progress: it leaves the stage. -/
theorem progress_raise {e : Exc} (h : raisePc retries w e pc = some (w', pc')) :
    Progress A vec w₀ w' pc' := by
  cases pc with
  | ended how => exact absurd h (by simp [raisePc])
  | marking error =>
    obtain ⟨rfl, rfl⟩ := Prod.mk.inj (Option.some.inj h)
    exact trivial
  | _ => exact progress_runStage (Option.some.inj h)

/-- A write that is under way keeps it: the parse stage does not read that object. -/
theorem progress_part {size : Nat} (hp : Progress A vec w₀ w pc)
    (h : partPc A w size pc = some (w', pc')) : Progress A vec w₀ w' pc' := by
  cases pc with
  | writingNormalized normalized =>
    obtain ⟨rfl, rfl⟩ := Prod.mk.inj (Option.some.inj h)
    have hsame : SameInputs .parse w (w.put .normalized ((A.dump normalized).take size)) :=
      ⟨rfl, rfl, fun h => absurd rfl h, rfl, rfl⟩
    refine ⟨hp.status, hsame.outcome.trans hp.outcome, ?_⟩
    exact (parsed_congr hsame.doc hsame.original).trans hp.loaded
  | _ => exact absurd h (by simp [partPc])

/-- **Every step of an attempt keeps its progress.** -/
theorem progress_step (hb : 1 ≤ A.batchSize) (hp : Progress A vec w₀ w pc)
    (hfaithful : Faithful vec pc c) (h : stepPc A retries w pc c = some (w', pc')) :
    Progress A vec w₀ w' pc' := by
  cases c with
  | go => exact progress_go hb hp h
  | reply r => exact progress_reply hp hfaithful h
  | raise e => exact progress_raise h
  | part size => exact progress_part hp h

/-! ## 6. A clean execution -/

/-- What holds throughout a clean execution, beyond its progress: it comes to the service's own
`_fail` only when the outcome is a failure, never to the shell's, and what it leaves behind is
the outcome. -/
def Tidy (A : Adapters) (vec : Text → ω) (w₀ w : World ω) : {stage : Stage} → Pc ω stage → Prop
  | stage, .failing _ => outcome A vec stage w₀ = w.failedOutcome stage
  | stage, .closing => w.observed stage = outcome A vec stage w₀
  | _, .marking _ => False
  | stage, .ended how => how = .returned ∧ w.observed stage = outcome A vec stage w₀
  | _, _ => True

theorem tidy_afterGet (doc : DocRow) : Tidy A vec w₀ w (afterGet stage doc : Pc ω stage) := by
  cases stage <;> exact trivial

/-- The parse stage fails exactly when its outcome is a failure. -/
theorem tidy_readOriginal {doc : DocRow} (hp : Running A vec w₀ w (.readingOriginal doc)) :
    Tidy A vec w₀ w (readOriginal A doc w) := by
  have hd : w.doc = some doc := hp.loaded
  unfold readOriginal
  cases hdata : w.objects .original with
  | none =>
    have hparsed : parsed A w = none := by simp [parsed, hd, hdata]
    show outcome A vec .parse w₀ = w.failedOutcome .parse
    rw [← hp.outcome]
    simp only [outcome, hparsed]
  | some data =>
    cases hparse : A.parse doc.mime data doc.filename with
    | error message =>
      have hparsed : parsed A w = none := by
        simp [parsed, hd, hdata, hparse, Except.toOption]
      simp only [hparse]
      show outcome A vec .parse w₀ = w.failedOutcome .parse
      rw [← hp.outcome]
      simp only [outcome, hparsed]
    | ok normalized =>
      simp only [hparse]
      exact trivial

/-- The chunk stage fails exactly when its outcome is a failure. -/
theorem tidy_readNormalized {doc : DocRow} (hp : Running A vec w₀ w (.readingNormalized doc)) :
    Tidy A vec w₀ w (readNormalized A doc w) := by
  have hd : w.doc = some doc := hp.loaded
  unfold readNormalized
  cases hraw : w.objects .normalized with
  | none =>
    have hdrafted : drafted A w = none := by simp [drafted, hd, hraw]
    show outcome A vec .chunk w₀ = w.failedOutcome .chunk
    rw [← hp.outcome]
    simp only [outcome, hdrafted]
  | some raw =>
    cases hvalid : A.validate raw with
    | error message =>
      have hdrafted : drafted A w = none := by
        simp [drafted, hd, hraw, hvalid, Except.toOption]
      simp only [hvalid]
      show outcome A vec .chunk w₀ = w.failedOutcome .chunk
      rw [← hp.outcome]
      simp only [outcome, hdrafted]
    | ok normalized =>
      simp only [hvalid]
      exact trivial

/-- What a committed `_fail` leaves is what a failed stage is expected to leave. -/
theorem observed_failed (hfailed : w'.status = some .failed) (hsame : SameInputs stage w w') :
    w'.observed stage = w.failedOutcome stage := by
  simp only [World.observed, World.failedOutcome, hfailed, hsame.chunks, hsame.followUps]

theorem cost_readOriginal (doc : DocRow) : cost w (readOriginal A doc w) ≤ 4 := by
  unfold readOriginal
  split
  · simp only [cost]
    omega
  · split <;> simp only [cost] <;> omega

theorem cost_readNormalized (doc : DocRow) : cost w (readNormalized A doc w) ≤ 4 := by
  unfold readNormalized
  split
  · simp only [cost]
    omega
  · split <;> simp only [cost] <;> omega

theorem cost_afterGet (doc : DocRow) :
    cost w (afterGet stage doc : Pc ω stage) < 3 * w.unembedded + 7 := by
  cases stage with
  | parse => simp only [afterGet, cost]; omega
  | chunk => simp only [afterGet, cost]; omega
  | embed => simp only [afterGet, cost]; omega

/-- **A clean execution stays tidy and comes closer to its end with every step.** -/
theorem tidy_step (hp : Progress A vec w₀ w pc) (ht : Tidy A vec w₀ w pc)
    (h : calmStep A vec retries (w, pc) = some (w', pc')) :
    Tidy A vec w₀ w' pc' ∧ cost w' pc' < cost w pc := by
  cases pc with
  | start =>
    obtain ⟨rfl, d, hd, hmem⟩ := hp
    obtain ⟨w₁, hclaim, -⟩ := progress_claim A vec hd hmem
    obtain ⟨-, -, -, -, hchunks, -⟩ := claimTx_eq_some hclaim
    simp only [calmStep, soloStep, calmChoice, stepPc, goPc, hclaim] at h
    obtain ⟨rfl, rfl⟩ := Prod.mk.inj (Option.some.inj h)
    refine ⟨trivial, ?_⟩
    simp only [cost, World.unembedded, hchunks]
    omega
  | claimed =>
    obtain ⟨d, hd, -⟩ := exists_doc hp.status
    simp only [calmStep, soloStep, calmChoice, stepPc, goPc, hd] at h
    obtain ⟨rfl, rfl⟩ := Prod.mk.inj (Option.some.inj h)
    exact ⟨tidy_afterGet d, cost_afterGet d⟩
  | readingOriginal doc =>
    obtain ⟨rfl, rfl⟩ := Prod.mk.inj (Option.some.inj h)
    exact ⟨tidy_readOriginal hp, Nat.lt_succ_of_le (cost_readOriginal doc)⟩
  | writingNormalized normalized =>
    obtain ⟨rfl, rfl⟩ := Prod.mk.inj (Option.some.inj h)
    exact ⟨trivial, by simp only [cost]; decide⟩
  | finishingParse =>
    obtain ⟨w₁, hw₁, -⟩ := progress_succeedParse hp
    simp only [calmStep, soloStep, calmChoice, stepPc, goPc, commitOr, hw₁] at h
    obtain ⟨rfl, rfl⟩ := Prod.mk.inj (Option.some.inj h)
    exact ⟨trivial, by simp only [cost]; decide⟩
  | readingNormalized doc =>
    obtain ⟨rfl, rfl⟩ := Prod.mk.inj (Option.some.inj h)
    exact ⟨tidy_readNormalized hp, Nat.lt_succ_of_le (cost_readNormalized doc)⟩
  | readingSource doc normalized =>
    obtain ⟨rfl, rfl⟩ := Prod.mk.inj (Option.some.inj h)
    exact ⟨trivial, by simp only [cost]; decide⟩
  | replacing drafts =>
    obtain ⟨w₁, hw₁, -⟩ := progress_replace hp
    simp only [calmStep, soloStep, calmChoice, stepPc, goPc, commitOr, hw₁] at h
    obtain ⟨rfl, rfl⟩ := Prod.mk.inj (Option.some.inj h)
    exact ⟨trivial, by simp only [cost]; decide⟩
  | batching =>
    obtain h := Option.some.inj h
    split at h
    · obtain ⟨rfl, rfl⟩ := Prod.mk.inj h
      refine ⟨trivial, ?_⟩
      simp only [cost]
      omega
    · obtain ⟨rfl, rfl⟩ := Prod.mk.inj h
      refine ⟨trivial, ?_⟩
      simp only [cost]
      omega
  | embedding batch =>
    obtain h := Option.some.inj h
    simp only [List.length_map, if_true] at h
    obtain ⟨rfl, rfl⟩ := Prod.mk.inj h
    refine ⟨trivial, ?_⟩
    simp only [cost]
    omega
  | storing batch vectors =>
    obtain ⟨rfl, rfl⟩ := Prod.mk.inj (Option.some.inj h)
    obtain ⟨hbatch, rfl⟩ := hp.loaded
    have hless := setEmbeddings_unembedded vec hbatch A.version
    refine ⟨trivial, ?_⟩
    simp only [cost]
    omega
  | finishingEmbed =>
    obtain ⟨w₁, hw₁, -, hobs⟩ := progress_succeedEmbed hp
    simp only [calmStep, soloStep, calmChoice, stepPc, goPc, commitOr, hw₁] at h
    obtain ⟨rfl, rfl⟩ := Prod.mk.inj (Option.some.inj h)
    exact ⟨hobs, by simp only [cost]; decide⟩
  | failing error =>
    obtain ⟨w₁, hw₁, hfailed, hsame⟩ := progress_fail hp
    simp only [calmStep, soloStep, calmChoice, stepPc, goPc, commitOr, hw₁] at h
    obtain ⟨rfl, rfl⟩ := Prod.mk.inj (Option.some.inj h)
    have hobs : w₁.observed stage = outcome A vec stage w₀ :=
      (observed_failed hfailed hsame).trans ht.symm
    exact ⟨hobs, by simp only [cost]; decide⟩
  | enqueueing next =>
    obtain ⟨rfl, rfl⟩ := Prod.mk.inj (Option.some.inj h)
    exact ⟨progress_enqueue hp, by simp only [cost]; decide⟩
  | closing =>
    obtain ⟨rfl, rfl⟩ := Prod.mk.inj (Option.some.inj h)
    exact ⟨⟨rfl, ht⟩, by simp only [cost]; decide⟩
  | marking error => exact ht.elim
  | ended how => exact absurd h (by simp [calmStep, soloStep, calmChoice, stepPc, goPc])

/-- The calm choice is faithful. -/
theorem calmChoice_faithful : Faithful vec pc (calmChoice vec pc) := by
  cases pc <;> first | exact trivial | rfl

/-- A clean execution halts only at its end. -/
theorem calmStep_halts (h : calmStep A vec retries (w, pc) = none) : ∃ how, pc = .ended how := by
  cases pc with
  | ended how => exact ⟨how, rfl⟩
  | _ => exact absurd h (by simp [calmStep, soloStep, calmChoice, stepPc, goPc, replyPc])

/-- **A clean execution on a document its stage can claim comes to its end**, and what it leaves
is the outcome. -/
theorem clean_spec (hb : 1 ≤ A.batchSize) {d : DocRow} (hd : w.doc = some d)
    (hmem : d.status ∈ stage.allowedFrom) :
    (cleanExec A vec stage retries w).2 = .ended .returned ∧
      (cleanExec A vec stage retries w).1.observed stage = outcome A vec stage w := by
  have hstep : ∀ x x' : Solo ω stage,
      (Progress A vec w x.1 x.2 ∧ Tidy A vec w x.1 x.2) → calmStep A vec retries x = some x' →
      (Progress A vec w x'.1 x'.2 ∧ Tidy A vec w x'.1 x'.2) ∧ cost x'.1 x'.2 < cost x.1 x.2 := by
    rintro ⟨w₁, pc₁⟩ ⟨w₂, pc₂⟩ ⟨hp, ht⟩ h
    obtain ⟨ht', hless⟩ := tidy_step hp ht h
    exact ⟨⟨progress_step hb hp calmChoice_faithful h, ht'⟩, hless⟩
  have hstart : Progress A vec w w (.start : Pc ω stage) ∧ Tidy A vec w w (.start : Pc ω stage) :=
    ⟨⟨rfl, d, hd, hmem⟩, trivial⟩
  obtain ⟨⟨-, ht⟩, hhalt⟩ := drive_halts (fun x : Solo ω stage => cost x.1 x.2) hstep
    (s := (w, .start)) hstart (Nat.le_refl _)
  obtain ⟨how, hended⟩ := calmStep_halts hhalt
  have hend : (cleanExec A vec stage retries w).2 = .ended how := hended
  have hfinal : Tidy A vec w (cleanExec A vec stage retries w).1
      (cleanExec A vec stage retries w).2 := ht
  rw [hend] at hfinal ⊢
  exact ⟨by rw [hfinal.1], hfinal.2⟩

/-- A clean execution that its claim refuses does nothing. -/
theorem clean_refused (h : claimTx stage w = none) :
    cleanExec A vec stage retries w = (w, .ended .returned) := by
  have hcost : cost w (.start : Pc ω stage) = (3 * w.unembedded + 6) + 1 + 1 := rfl
  have hone : calmStep A vec retries (w, (.start : Pc ω stage)) = some (w, .closing) := by
    simp only [calmStep, soloStep, calmChoice, stepPc, goPc, h]
  have htwo : calmStep A vec retries (w, (.closing : Pc ω stage)) = some (w, .ended .returned) :=
    rfl
  have hthree : calmStep A vec retries (w, (.ended .returned : Pc ω stage)) = none := rfl
  rw [cleanExec, hcost]
  simp only [drive, hone, htwo, hthree]

end AtlasKnowledge.Pipeline
