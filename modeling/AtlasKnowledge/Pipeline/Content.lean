/-
# What the pipeline makes of a file

Three stages hand a document on through the storage and the chunk table, and any number of
executions of each may overlap, be cut off or run again.  Whatever they do, the contents are a
function of the file that was uploaded: parsing it, writing and reading the normalised form, and
chunking that.  A write of the normalised form may be read, or cut short, while it is under way.

* `chunks_of_file`: in every state of every run the storage and the chunk table hold nothing but
  what that function gives, and a document in `embedding` or `ready` has exactly its chunks;
* `inputs_in_place`: while the row is there, every message and every execution has the input of its
  stage.

Both rest on one invariant: whatever shows that a stage has been reached (the status, a job, a
message, an execution or a request), the stage's input is in place.
-/
import AtlasKnowledge.Pipeline.Moves
import AtlasKnowledge.Lib.Assertions

namespace AtlasKnowledge.Pipeline

open Interleave Transition

variable {ω : Type}

/-! ## 1. The function -/

/-- The columns of a chunk row that come from its draft. -/
def ChunkRow.draft (c : ChunkRow ω) : ChunkDraft :=
  { seq := c.seq, text := c.text, tokens := c.tokens, info := c.info }

section Function

variable (A : Adapters) (u : Upload) (torn : Prop)

/-- What the parser makes of the uploaded file. -/
def Upload.Parsed (n : NormalizedDocument) : Prop := A.parse u.mime u.data u.filename = .ok n

/-- What the storage may hold of it: all of it or, where a write is `torn`, its beginning. -/
def Upload.Stored (raw : Bytes) : Prop :=
  ∃ n, u.Parsed A n ∧ (raw = A.dump n ∨ torn ∧ raw <+: A.dump n)

/-- What the chunk stage reads back of it. -/
def Upload.Loaded (n : NormalizedDocument) : Prop :=
  ∃ raw, u.Stored A torn raw ∧ A.validate raw = .ok n

/-- The drafts it makes of that. -/
def Upload.Drafted (drafts : Drafts) : Prop :=
  ∃ n, u.Loaded A torn n ∧ drafts = A.buildChunks n ((A.sourceType u.sourceId).getD "upload")

/-- What the stages before this one have to leave for it. -/
def Stage.Input : Stage → World ω → Prop
  | .parse, w => w.objects .original = some u.data
  | .chunk, w => ∃ raw, u.Stored A torn raw ∧ w.objects .normalized = some raw
  | .embed, w => ∃ drafts, u.Drafted A torn drafts ∧ w.chunks.rows.map ChunkRow.draft = drafts.list

/-! ## 2. What shows that a stage has been reached -/

/-- The last stage whose input a status promises. -/
def DocStatus.level : DocStatus → Nat
  | .pending | .parsing | .failed => 0
  | .chunking => 1
  | .embedding | .ready => 2

/-- The last stage whose input an execution relies on, or is about to hand over. -/
def Pc.level : {stage : Stage} → Pc ω stage → Nat
  | _, .finishingParse => Stage.chunk.index
  | s, .enqueueing next => max s.index next.index
  | s, _ => s.index

/-- The same for a request. -/
def RequestPc.level : RequestPc → Nat
  | .resetting _ stage | .refreshing stage | .enqueueing _ stage => stage.index
  | _ => 0

/-- The same for any party. -/
def Party.level : Party ω → Nat
  | .task x => x.pc.level
  | .request r => r.pc.level

/-- The inputs of the stages up to `k` are there, as long as the row is. -/
def World.Provides (w : World ω) (k : Nat) : Prop :=
  w.doc = none ∨ ∀ stage : Stage, stage.index ≤ k → stage.Input A u torn w

/-- The row has the columns of the upload. -/
def Upload.Columns (d : DocRow) : Prop :=
  d.mime = u.mime ∧ d.filename = u.filename ∧ d.sourceId = u.sourceId

/-- What holds of the shared state between the steps. -/
structure World.Content (w : World ω) : Prop where
  columns : ∀ d, w.doc = some d → u.Columns d
  purged : w.purgeSent = true → w.doc = none
  original : ∀ data, w.objects .original = some data → data = u.data
  normalized : ∀ raw, w.objects .normalized = some raw → u.Stored A torn raw
  chunks : w.chunks.rows = [] ∨ Stage.embed.Input A u torn w
  status : ∀ d, w.doc = some d → w.Provides A u torn d.status.level
  jobs : ∀ stage, w.jobs stage ≠ none → w.Provides A u torn stage.index
  sent : ∀ m ∈ w.sent, w.Provides A u torn m.stage.index

/-- What an execution carries from one effect to the next comes from the file. -/
def Pc.Carries : {stage : Stage} → Pc ω stage → Prop
  | _, .readingOriginal doc => u.Columns doc
  | _, .writingNormalized n => u.Parsed A n
  | _, .readingNormalized doc => u.Columns doc
  | _, .readingSource doc n => u.Columns doc ∧ u.Loaded A torn n
  | _, .replacing drafts => u.Drafted A torn drafts
  | _, _ => True

/-- What a party carries with it is of this upload. -/
def Party.Carries : Party ω → Prop
  | .task x => x.pc.Carries A u torn
  | .request _ => True

/-- What a party relies on. -/
def Party.Relies (w : World ω) (p : Party ω) : Prop :=
  w.Provides A u torn p.level ∧ p.Carries A u torn

end Function

variable {A : Adapters} {u : Upload} {torn : Prop} {retries : Nat} {w w' : World ω} {stage : Stage}
  {pc pc' : Pc ω stage} {c : Choice ω} {k : Nat}

/-! ## 3. Inputs stay in place -/

theorem World.Provides.mono {j : Nat} (h : w.Provides A u torn k) (hj : j ≤ k) :
    w.Provides A u torn j :=
  h.imp_right fun hall stage hstage => hall stage (Nat.le_trans hstage hj)

/-- The storage and the chunk table decide the inputs. -/
theorem Stage.Input.congr (hobjects : w'.objects = w.objects)
    (hrows : w'.chunks.rows.map ChunkRow.draft = w.chunks.rows.map ChunkRow.draft)
    (h : stage.Input A u torn w) : stage.Input A u torn w' := by
  cases stage with
  | parse => rwa [Stage.Input, hobjects]
  | chunk => rwa [Stage.Input, hobjects]
  | embed => rwa [Stage.Input, hrows]

/-- What a step may do without taking an input away. -/
structure Keeps (A : Adapters) (u : Upload) (torn : Prop) (w w' : World ω) : Prop where
  gone : w.doc = none → w'.doc = none
  inputs : w'.doc ≠ none → ∀ stage : Stage, stage.Input A u torn w → stage.Input A u torn w'

theorem Keeps.refl (w : World ω) : Keeps A u torn w w := ⟨fun h => h, fun _ _ h => h⟩

theorem World.Provides.keep (h : w.Provides A u torn k) (hk : Keeps A u torn w w') :
    w'.Provides A u torn k := by
  by_cases hdoc : w'.doc = none
  · exact Or.inl hdoc
  · rcases h with hgone | hall
    · exact absurd (hk.gone hgone) hdoc
    · exact Or.inr fun stage hstage => hk.inputs hdoc stage (hall stage hstage)

/-- A step on the other tables keeps every input. -/
theorem Keeps.of_same (hgone : w.doc = none → w'.doc = none) (hobjects : w'.objects = w.objects)
    (hchunks : w'.chunks = w.chunks) : Keeps A u torn w w' :=
  ⟨hgone, fun _ _ h => h.congr hobjects (by rw [hchunks])⟩

/-! ## 4. The steps that write -/

/-- **The row and the jobs.**  A status and a job may be written when the inputs that they promise
are there. -/
theorem World.Content.update {d d' : DocRow} {jobs : Stage → Option JobRow}
    (hw : w.Content A u torn) (hd : w.doc = some d) (hcolumns : u.Columns d')
    (hstatus : w.Provides A u torn d'.status.level)
    (hjobs : ∀ s, jobs s ≠ none → w.jobs s ≠ none ∨ w.Provides A u torn s.index) :
    ({ w with doc := some d', jobs := jobs } : World ω).Content A u torn ∧
      Keeps A u torn w { w with doc := some d', jobs := jobs } := by
  have hkeeps : Keeps A u torn w { w with doc := some d', jobs := jobs } :=
    .of_same (fun h => absurd (hd.symm.trans h) (by simp)) rfl rfl
  refine ⟨?_, hkeeps⟩
  constructor
  · intro d₁ hd₁
    obtain rfl := Option.some.inj hd₁
    exact hcolumns
  · intro hsent
    exact absurd (hd.symm.trans (hw.purged hsent)) (by simp)
  · exact hw.original
  · exact hw.normalized
  · exact hw.chunks
  · intro d₁ hd₁
    obtain rfl := Option.some.inj hd₁
    exact hstatus.keep hkeeps
  · intro s hs
    rcases hjobs s hs with hold | hnew
    · exact (hw.jobs s hold).keep hkeeps
    · exact hnew.keep hkeeps
  · exact fun m hm => (hw.sent m hm).keep hkeeps

/-- The jobs of a transaction of this stage. -/
theorem jobs_of_stage (stage : Stage) (job : JobRow) (hstage : w.Provides A u torn stage.index) :
    ∀ s, (if s = stage then some job else w.jobs s) ≠ none →
      w.jobs s ≠ none ∨ w.Provides A u torn s.index := by
  intro s hs
  by_cases h : s = stage
  · exact Or.inr (h ▸ hstage)
  · exact Or.inl (by simpa [h] using hs)

/-- **The broker.**  A message may be sent to a stage whose input is there. -/
theorem World.Content.send {m : Message} (hw : w.Content A u torn)
    (hm : w.Provides A u torn m.stage.index) :
    ({ w with sent := w.sent ++ [m] } : World ω).Content A u torn ∧
      Keeps A u torn w { w with sent := w.sent ++ [m] } := by
  have hkeeps : Keeps A u torn w { w with sent := w.sent ++ [m] } := .of_same (fun h => h) rfl rfl
  refine ⟨⟨hw.columns, hw.purged, hw.original, hw.normalized, hw.chunks,
    fun d hd => (hw.status d hd).keep hkeeps, fun s hs => (hw.jobs s hs).keep hkeeps, ?_⟩, hkeeps⟩
  intro m' hm'
  rcases List.mem_append.mp hm' with hold | hnew
  · exact (hw.sent m' hold).keep hkeeps
  · obtain rfl := List.mem_singleton.mp hnew
    exact hm.keep hkeeps

/-- **The storage.**  Only the parser's own document is written under `normalized.json`. -/
theorem World.Content.write {raw : Bytes} (hw : w.Content A u torn) (hraw : u.Stored A torn raw) :
    (w.put .normalized raw).Content A u torn ∧ Keeps A u torn w (w.put .normalized raw) ∧
      (w.Provides A u torn 0 → (w.put .normalized raw).Provides A u torn 1) := by
  have hkeeps : Keeps A u torn w (w.put .normalized raw) := by
    refine ⟨fun h => h, fun _ stage h => ?_⟩
    cases stage with
    | parse => exact h
    | chunk => exact ⟨raw, hraw, rfl⟩
    | embed => exact h
  refine ⟨⟨hw.columns, hw.purged, hw.original, ?_, hw.chunks,
    fun d hd => (hw.status d hd).keep hkeeps, fun s hs => (hw.jobs s hs).keep hkeeps,
    fun m hm => (hw.sent m hm).keep hkeeps⟩, hkeeps, ?_⟩
  · intro raw' hraw'
    obtain rfl := Option.some.inj hraw'
    exact hraw
  · refine Or.imp (fun hnone => hnone) fun hall stage hstage => ?_
    cases stage with
    | parse => exact hall .parse (Nat.le_refl 0)
    | chunk => exact ⟨raw, hraw, rfl⟩
    | embed => exact absurd hstage (by decide)

/-- The chunk table of a world with new rows. -/
theorem World.Content.rechunk (hw : w.Content A u torn) (w' : World ω)
    (hsame : w'.doc = w.doc ∧ w'.jobs = w.jobs ∧ w'.objects = w.objects ∧ w'.sent = w.sent ∧
      w'.purgeSent = w.purgeSent)
    (hrows : w'.chunks.rows.map ChunkRow.draft = w.chunks.rows.map ChunkRow.draft ∨
      Stage.embed.Input A u torn w') :
    w'.Content A u torn ∧ Keeps A u torn w w' := by
  obtain ⟨hdoc, hjobs, hobjects, hsent, hpurge⟩ := hsame
  have hkeeps : Keeps A u torn w w' := by
    refine ⟨fun h => hdoc.trans h, fun _ stage h => ?_⟩
    rcases hrows with hrows | hinput
    · exact h.congr hobjects hrows
    · cases stage with
      | parse => rwa [Stage.Input, hobjects]
      | chunk => rwa [Stage.Input, hobjects]
      | embed => exact hinput
  refine ⟨?_, hkeeps⟩
  constructor
  · rw [hdoc]
    exact hw.columns
  · rw [hdoc, hpurge]
    exact hw.purged
  · rw [hobjects]
    exact hw.original
  · rw [hobjects]
    exact hw.normalized
  · rcases hrows with hrows | hinput
    · rcases hw.chunks with hnil | hinput
      · exact Or.inl (by simpa [hnil] using hrows)
      · exact Or.inr (hinput.congr hobjects hrows)
    · exact Or.inr hinput
  · rw [hdoc]
    exact fun d hd => (hw.status d hd).keep hkeeps
  · rw [hjobs]
    exact fun s hs => (hw.jobs s hs).keep hkeeps
  · rw [hsent]
    exact fun m hm => (hw.sent m hm).keep hkeeps

/-- The inserted rows are the drafts. -/
theorem insertRows_draft (nextId : Id) (drafts : List ChunkDraft) :
    (insertRows (ω := ω) nextId drafts).map ChunkRow.draft = drafts := by
  rw [insertRows, List.map_map]
  conv_rhs => rw [← List.zipIdx_map_fst 0 drafts]
  exact List.map_congr_left fun p _ => rfl

/-- Storing an embedding changes no column of the draft. -/
theorem setEmbedding_draft (t : ChunkTable ω) (chunkId : Id) (vector : ω) (version : String) :
    (t.setEmbedding chunkId vector version).rows.map ChunkRow.draft = t.rows.map
      ChunkRow.draft := by
  rw [ChunkTable.setEmbedding, List.map_map]
  refine List.map_congr_left fun c _ => ?_
  simp only [Function.comp_apply]
  split <;> rfl

theorem setEmbeddings_draft (vectors : List (Id × ω)) (version : String) (w : World ω) :
    (w.setEmbeddings vectors version).chunks.rows.map ChunkRow.draft
      = w.chunks.rows.map ChunkRow.draft := by
  simp only [World.setEmbeddings]
  generalize w.chunks = t
  induction vectors generalizing t with
  | nil => rfl
  | cons v vs ih => exact (ih _).trans (setEmbedding_draft t v.1 v.2 version)

/-! ## 5. One step of an execution -/

theorem Pc.stage_le_level (pc : Pc ω stage) : stage.index ≤ pc.level := by
  cases pc with
  | finishingParse => exact Nat.zero_le _
  | enqueueing next => exact Nat.le_max_left _ _
  | _ => exact Nat.le_refl _

/-- The shell leaves the execution where it relies on its own stage only. -/
theorem runStage_carries (A : Adapters) (u : Upload) (torn : Prop) (stage : Stage) (retries : Nat)
    (w : World ω) (e : Exc) : (runStage stage retries w e).2.level = stage.index ∧
      (runStage stage retries w e).2.Carries A u torn := by
  have hspec : SameTables w (runStage stage retries w e).1 ∧
      ((runStage stage retries w e).2.isMarking = true ∨
        ∃ how, (runStage stage retries w e).2 = .ended how) := runStage_spec e
  rcases hspec.2 with hm | ⟨how, hm⟩
  · cases hpc : (runStage stage retries w e).2 with
    | marking error => exact ⟨rfl, trivial⟩
    | _ => exact absurd hm (by simp [hpc, Pc.isMarking])
  · rw [hm]
    exact ⟨rfl, trivial⟩

theorem afterGet_carries (A : Adapters) (torn : Prop) (stage : Stage) {doc : DocRow}
    (h : u.Columns doc) :
    (afterGet (ω := ω) stage doc).level = stage.index ∧
      (afterGet (ω := ω) stage doc).Carries A u torn := by
  cases stage
  · exact ⟨rfl, h⟩
  · exact ⟨rfl, h⟩
  · exact ⟨rfl, trivial⟩

theorem readOriginal_carries {doc : DocRow} (hw : w.Content A u torn) (h : u.Columns doc) :
    (readOriginal A doc w).level = Stage.parse.index ∧ (readOriginal A doc w).Carries A u torn := by
  unfold readOriginal
  split
  · exact ⟨rfl, trivial⟩
  · rename_i data hdata
    obtain rfl := hw.original data hdata
    split
    · exact ⟨rfl, trivial⟩
    · rename_i n hn
      rw [h.1, h.2.1] at hn
      exact ⟨rfl, hn⟩

theorem readNormalized_carries {doc : DocRow} (hw : w.Content A u torn) (h : u.Columns doc) :
    (readNormalized A doc w).level = Stage.chunk.index ∧
    (readNormalized A doc w).Carries A u torn := by
  unfold readNormalized
  split
  · exact ⟨rfl, trivial⟩
  · rename_i raw hraw
    split
    · exact ⟨rfl, trivial⟩
    · rename_i n hn
      exact ⟨rfl, h, raw, hw.normalized raw hraw, hn⟩

/-- A `_succeed` keeps the contents, when the inputs that its next status promises are there. -/
theorem succeedTx_content (hw : w.Content A u torn) (hstage : w.Provides A u torn stage.index)
    (hnext : w.Provides A u torn stage.nextStatus.level) (h : succeedTx stage w = some w') :
    w'.Content A u torn ∧ Keeps A u torn w w' := by
  obtain ⟨d, job, hd, rfl⟩ := succeedTx_world h
  have hcolumns : u.Columns { d with status := stage.nextStatus } := hw.columns d hd
  exact hw.update hd hcolumns hnext (jobs_of_stage stage job hstage)

/-- A `_fail` promises nothing new. -/
theorem failTx_content {error : String} (hw : w.Content A u torn)
    (hstage : w.Provides A u torn stage.index) (h : failTx stage error w = some w') :
    w'.Content A u torn ∧ Keeps A u torn w w' := by
  obtain ⟨d, job, hd, rfl⟩ := failTx_world h
  have hcolumns : u.Columns { d with status := .failed, error := some error } := hw.columns d hd
  exact hw.update hd hcolumns (hstage.mono (Nat.zero_le _)) (jobs_of_stage stage job hstage)

/-- **The chunk stage's commit** puts the embed stage's input in place and moves the document
on. -/
theorem replaceTx_content {drafts : Drafts} (hw : w.Content A u torn)
    (hchunk : w.Provides A u torn Stage.chunk.index) (hdrafts : u.Drafted A torn drafts)
    (h : replaceTx drafts w = some w') :
    w'.Content A u torn ∧ Keeps A u torn w w' ∧ w'.Provides A u torn Stage.embed.index := by
  have hinput : Stage.embed.Input A u torn (w.replaceForDocument drafts) :=
    ⟨drafts, hdrafts, by rw [replaceForDocument_rows, insertRows_draft]⟩
  obtain ⟨hmid, hkeeps⟩ := hw.rechunk (w.replaceForDocument drafts)
    ⟨rfl, rfl, rfl, rfl, rfl⟩ (Or.inr hinput)
  have hall : (w.replaceForDocument drafts).Provides A u torn Stage.embed.index := by
    refine (hchunk.keep hkeeps).imp_right fun hinputs s _ => ?_
    cases s with
    | parse => exact hinputs .parse (Nat.zero_le _)
    | chunk => exact hinputs .chunk (Nat.le_refl _)
    | embed => exact hinput
  obtain ⟨hcontent, hkeeps'⟩ := succeedTx_content hmid (hchunk.keep hkeeps) hall h
  refine ⟨hcontent, ⟨fun hnone => hkeeps'.gone (hkeeps.gone hnone), ?_⟩, hall.keep hkeeps'⟩
  intro hdoc s hs
  refine hkeeps'.inputs hdoc s (hkeeps.inputs (fun hnone => ?_) s hs)
  exact hdoc (hkeeps'.gone hnone)

/-- **What one step of an execution keeps**, given what it relies on. -/
theorem moves_content (hw : w.Content A u torn) (hlevel : w.Provides A u torn pc.level)
    (hpc : pc.Carries A u torn) (hpart : ∀ size, c = .part size → torn)
    (h : Moves A retries w pc c w' pc') :
    w'.Content A u torn ∧ Keeps A u torn w w' ∧ w'.Provides A u torn pc'.level ∧
      pc'.Carries A u torn := by
  have hstage : w.Provides A u torn stage.index := hlevel.mono pc.stage_le_level
  cases h with
  | claim h =>
    obtain ⟨d, job, hd, rfl⟩ := claimTx_world h
    have hcolumns : u.Columns { d with status := stage.claimTo, error := none } := hw.columns d hd
    have hstatus : w.Provides A u torn stage.claimTo.level := by cases stage <;> exact hstage
    obtain ⟨hcontent, hkeeps⟩ := hw.update hd hcolumns hstatus (jobs_of_stage stage job hstage)
    exact ⟨hcontent, hkeeps, hstage.keep hkeeps, trivial⟩
  | @get _ doc hdoc =>
    obtain ⟨hlev, hcarries⟩ := afterGet_carries (ω := ω) A torn stage (hw.columns doc hdoc)
    exact ⟨hw, .refl w, hlev ▸ hstage, hcarries⟩
  | parse =>
    obtain ⟨hlev, hcarries⟩ := readOriginal_carries hw hpc
    exact ⟨hw, .refl w, hlev ▸ hstage, hcarries⟩
  | write =>
    obtain ⟨hcontent, hkeeps, hnext⟩ := hw.write ⟨_, hpc, Or.inl rfl⟩
    exact ⟨hcontent, hkeeps, hnext hlevel, trivial⟩
  | @part n size =>
    obtain ⟨hcontent, hkeeps, -⟩ :=
      hw.write ⟨n, hpc, Or.inr ⟨hpart size rfl, List.take_prefix size _⟩⟩
    exact ⟨hcontent, hkeeps, hlevel.keep hkeeps, hpc⟩
  | finishParse h =>
    obtain ⟨hcontent, hkeeps⟩ := succeedTx_content hw hstage hlevel h
    exact ⟨hcontent, hkeeps, hlevel.keep hkeeps, trivial⟩
  | load =>
    obtain ⟨hlev, hcarries⟩ := readNormalized_carries hw hpc
    exact ⟨hw, .refl w, hlev ▸ hstage, hcarries⟩
  | build =>
    obtain ⟨⟨-, -, hsource⟩, hn⟩ := hpc
    exact ⟨hw, .refl w, hlevel, _, hn, by rw [hsource]⟩
  | replace h =>
    obtain ⟨hcontent, hkeeps, hall⟩ := replaceTx_content hw hstage hpc h
    exact ⟨hcontent, hkeeps, hall, trivial⟩
  | store =>
    obtain ⟨hcontent, hkeeps⟩ := hw.rechunk (w.setEmbeddings _ A.version)
      ⟨rfl, rfl, rfl, rfl, rfl⟩ (Or.inl (setEmbeddings_draft _ A.version w))
    exact ⟨hcontent, hkeeps, hstage.keep hkeeps, trivial⟩
  | finishEmbed h =>
    obtain ⟨hcontent, hkeeps⟩ := succeedTx_content hw hstage hlevel h
    exact ⟨hcontent, hkeeps, hstage.keep hkeeps, trivial⟩
  | fail h =>
    obtain ⟨hcontent, hkeeps⟩ := failTx_content hw hstage h
    exact ⟨hcontent, hkeeps, hstage.keep hkeeps, trivial⟩
  | mark h =>
    obtain ⟨hcontent, hkeeps⟩ := failTx_content hw hstage h
    exact ⟨hcontent, hkeeps, hstage.keep hkeeps, trivial⟩
  | @send _ next =>
    have hnext : w.Provides A u torn next.index := hlevel.mono (Nat.le_max_right _ _)
    obtain ⟨hcontent, hkeeps⟩ := hw.send (m := { stage := next }) hnext
    exact ⟨hcontent, hkeeps, hstage.keep hkeeps, trivial⟩
  | handle e raised =>
    obtain ⟨hlev, hcarries⟩ := runStage_carries A u torn stage retries w e
    rw [hlev]
    have hworld : (runStage stage retries w e).1 = w ∨ ∃ m : Message, m.stage = stage ∧
        (runStage stage retries w e).1 = { w with sent := w.sent ++ [m] } := runStage_world e
    rcases hworld with hsame | ⟨m, hm, hsent⟩
    · rw [hsame]
      exact ⟨hw, .refl w, hstage, hcarries⟩
    · rw [hsent]
      obtain ⟨hcontent, hkeeps⟩ := hw.send (m := m) (hm ▸ hstage)
      exact ⟨hcontent, hkeeps, hstage.keep hkeeps, hcarries⟩
  | _ => exact ⟨hw, .refl w, hstage, trivial⟩

/-! ## 6. One step of the system -/

/-- The first stage's input is there with the row. -/
theorem World.Content.provides_zero (hw : w.Content A u torn) : w.Provides A u torn 0 := by
  cases hd : w.doc with
  | none => exact Or.inl hd
  | some d => exact (hw.status d hd).mono (Nat.zero_le _)

theorem firstFailedStage_job {s : Stage} (h : w.firstFailedStage = some s) : w.jobs s ≠ none := by
  intro hnone
  have hfound := List.find?_some h
  simp [hnone] at hfound

/-- A request's update of the row leaves it in its old status or in the one it writes. -/
theorem updateDoc_content {loaded : DocRow} {status : DocStatus} {error : Option String}
    (hw : w.Content A u torn) (hstatus : w.Provides A u torn status.level)
    (h : w.updateDoc loaded status error = some w') :
    w'.Content A u torn ∧ Keeps A u torn w w' := by
  obtain ⟨d, hd, rfl⟩ := updateDoc_world h
  have hcolumns : u.Columns { d with
      status := if loaded.status = status then d.status else status
      error := if loaded.error = error then d.error else error } := hw.columns d hd
  refine hw.update hd hcolumns ?_ fun s hs => Or.inl hs
  show w.Provides A u torn (if loaded.status = status then d.status else status).level
  split
  · exact hw.status d hd
  · exact hstatus

theorem requestMoves_content {kind : RequestKind} {rpc rpc' : RequestPc}
    (hw : w.Content A u torn) (hlevel : w.Provides A u torn rpc.level)
    (h : RequestMoves w kind rpc w' rpc') :
    w'.Content A u torn ∧ Keeps A u torn w w' ∧ w'.Provides A u torn rpc'.level := by
  have hzero : w.Provides A u torn 0 := hw.provides_zero
  cases h with
  | decide =>
    refine ⟨hw, .refl w, ?_⟩
    -- the stage of a failed job has been reached
    cases hfirst : w.firstFailedStage with
    | none => exact hzero
    | some stage => exact hw.jobs stage (firstFailedStage_job hfirst)
  | @reset loaded stage _ hupdate =>
    have hstatus : w.Provides A u torn stage.entryStatus.level := by cases stage <;> exact hlevel
    obtain ⟨hcontent, hkeeps⟩ := updateDoc_content hw hstatus hupdate
    exact ⟨hcontent, hkeeps, hlevel.keep hkeeps⟩
  | refresh _ => exact ⟨hw, .refl w, hlevel⟩
  | @send loaded stage =>
    obtain ⟨hcontent, hkeeps⟩ := hw.send (m := { stage := stage }) hlevel
    exact ⟨hcontent, hkeeps, hzero.keep hkeeps⟩
  | unmark hupdate =>
    have hfailed : w.Provides A u torn DocStatus.failed.level := hzero
    obtain ⟨hcontent, hkeeps⟩ := updateDoc_content hw hfailed hupdate
    exact ⟨hcontent, hkeeps, hzero.keep hkeeps⟩
  | _ => exact ⟨hw, .refl w, hzero⟩

theorem raiseRequest_level {rpc rpc' : RequestPc} (h : raiseRequest rpc = some rpc') :
    rpc'.level = 0 := by
  cases rpc with
  | answered answer => exact absurd h (by simp [raiseRequest])
  | _ =>
    obtain rfl := Option.some.inj h
    rfl

/-- The contents are right, and every party has what it relies on. -/
def Sys.Sound (A : Adapters) (u : Upload) (torn : Prop) (s : Sys ω) : Prop :=
  s.Holds (World.Content A u torn) (Party.Relies A u torn)

theorem Party.Relies.keep {p : Party ω} (hk : Keeps A u torn w w') (h : p.Relies A u torn w) :
    p.Relies A u torn w' := ⟨h.1.keep hk, h.2⟩

variable {s s' : Sys ω} {l : Label ω}

/-- The step leaves a write of the normalised form under way. -/
def Label.isPart : Label ω → Prop
  | .act _ (.part _) => True
  | _ => False

/-- **One step of the system keeps the contents right.** -/
theorem step_sound (hs : s.Sound A u torn) (hpart : l.isPart → torn) (h : s.step A l = some s') :
    s'.Sound A u torn := by
  have hw : s.shared.Content A u torn := hs.shared
  cases step_moves h with
  | deliver m hm => exact hs.spawn ⟨hw.sent m hm, trivial⟩
  | arrive kind => exact hs.spawn ⟨hw.provides_zero, trivial⟩
  | task hat _ hmoves =>
    obtain ⟨hlevel, hcarries⟩ := hs.parties _ hat
    obtain ⟨hcontent, hkeeps, hlevel', hcarries'⟩ := moves_content hw hlevel hcarries
      (fun size hc => hpart (by rw [hc]; trivial)) hmoves
    exact hs.set _ hcontent ⟨hlevel', hcarries'⟩ fun r => Party.Relies.keep hkeeps
  | request hat _ hgo =>
    obtain ⟨hlevel, -⟩ := hs.parties _ hat
    obtain ⟨hcontent, hkeeps, hlevel'⟩ := requestMoves_content hw hlevel hgo
    exact hs.set _ hcontent ⟨hlevel', trivial⟩ fun r => Party.Relies.keep hkeeps
  | @requestRaise i e r rpc hat hraise =>
    have hlevel : s.shared.Provides A u torn rpc.level := by
      rw [raiseRequest_level hraise]
      exact hw.provides_zero
    exact hs.set i hw ⟨hlevel, trivial⟩ fun r hr => hr
  | delete hd =>
    refine hs.env ⟨?_, ?_, hw.original, hw.normalized, Or.inl rfl, ?_, ?_, ?_⟩ ?_
    · exact fun d hd => absurd hd (by simp)
    · exact fun _ => rfl
    · exact fun d hd => absurd hd (by simp)
    · exact fun stage hne => absurd rfl hne
    · exact fun m _ => Or.inl rfl
    · exact fun r hr => ⟨Or.inl rfl, hr.2⟩
  | purge hsent =>
    -- the purge is sent when the row is gone, so no input is needed any more
    have hgone : s.shared.doc = none := hw.purged hsent
    refine hs.env ⟨hw.columns, hw.purged, ?_, ?_, ?_, ?_, ?_, ?_⟩ ?_
    · exact fun data hdata => absurd hdata (by simp)
    · exact fun raw hraw => absurd hraw (by simp)
    · exact hw.chunks
    · exact fun _ _ => Or.inl hgone
    · exact fun _ _ => Or.inl hgone
    · exact fun _ _ => Or.inl hgone
    · exact fun r hr => ⟨Or.inl hgone, hr.2⟩

theorem upload_sound (A : Adapters) (u : Upload) (torn : Prop) :
    (u.sys (ω := ω)).Sound A u torn := by
  have hzero : ∀ k, k = 0 → (u.world (ω := ω)).Provides A u torn k := by
    rintro k rfl
    refine Or.inr fun stage hstage => ?_
    cases stage with
    | parse => rfl
    | chunk => exact absurd hstage (by decide)
    | embed => exact absurd hstage (by decide)
  constructor
  · constructor
    · intro d hd
      obtain rfl := Option.some.inj hd
      exact ⟨rfl, rfl, rfl⟩
    · exact fun h => absurd h (by simp [Upload.sys, Upload.world])
    · exact fun data hdata => (Option.some.inj hdata).symm
    · exact fun raw hraw => absurd hraw (by simp [Upload.sys, Upload.world])
    · exact Or.inl rfl
    · intro d hd
      obtain rfl := Option.some.inj hd
      exact hzero _ rfl
    · exact fun stage hne => absurd rfl hne
    · exact fun m hm => absurd hm (by simp [Upload.sys, Upload.world])
  · intro p hp
    obtain rfl := List.mem_singleton.mp hp
    exact ⟨hzero _ rfl, trivial⟩

/-! ## 7. Every run -/

/-- Among these labels there is a step in which a write of the normalised form was under way. -/
def Torn (seen : Label ω → Prop) : Prop := ∃ l, seen l ∧ l.isPart

theorem run_sound {ls : List (Label ω)} (hrun : run (Sys.step A) u.sys ls = some s) :
    s.Sound A u (Torn (· ∈ ls)) :=
  run_invariant (fun _ l _ hs (hl : l ∈ ls) => step_sound hs fun hpart => ⟨l, hl, hpart⟩)
    (upload_sound A u _) (guarded_of_forall _ fun _ hl => hl) hrun

/-- `model_validate_json` rejects a document that breaks off before its end. -/
def Adapters.RejectsPrefixes (A : Adapters) : Prop :=
  ∀ (n : NormalizedDocument) (raw : Bytes), raw <+: A.dump n → raw ≠ A.dump n →
    ∃ message, A.validate raw = .error message

/-- The rows hold what the chunking strategy makes of the parser's document of the file, as it
reads back from the storage. -/
def Upload.Chunked (A : Adapters) (u : Upload) (rows : List (ChunkRow ω)) : Prop :=
  ∃ n₀ n, A.parse u.mime u.data u.filename = .ok n₀ ∧ A.validate (A.dump n₀) = .ok n ∧
    rows.map ChunkRow.draft = (A.buildChunks n ((A.sourceType u.sourceId).getD "upload")).list

/-- What is chunked was read whole. -/
theorem Upload.Drafted.chunked {drafts : Drafts} {rows : List (ChunkRow ω)}
    (hrejects : A.RejectsPrefixes) (h : u.Drafted A torn drafts)
    (hrows : rows.map ChunkRow.draft = drafts.list) : u.Chunked A rows := by
  obtain ⟨n, ⟨raw, ⟨n₀, hn₀, hraw⟩, hvalid⟩, rfl⟩ := h
  have hwhole : raw = A.dump n₀ := by
    rcases hraw with heq | ⟨-, hbegin⟩
    · exact heq
    · by_contra hne
      obtain ⟨message, herror⟩ := hrejects n₀ raw hbegin hne
      exact absurd (hvalid.symm.trans herror) (by simp)
  subst hwhole
  exact ⟨n₀, n, hn₀, hvalid, hrows⟩

theorem World.Content.embed_input {d : DocRow} (hw : w.Content A u torn) (hd : w.doc = some d)
    (hstatus : w.status = some .embedding ∨ w.status = some .ready) :
    Stage.embed.Input A u torn w := by
  have hlevel : 2 ≤ d.status.level := by
    simp only [World.status, hd, Option.map_some, Option.some.injEq] at hstatus
    rcases hstatus with h | h <;> rw [h] <;> exact Nat.le_refl 2
  exact (hw.status d hd).resolve_left (by simp [hd]) .embed hlevel

/-- **The contents are a function of the file.**  In every state of every run the storage holds
the uploaded bytes and the parser's document of them, or its beginning if a write of it was under
way in the run, and nothing else; the chunk table is empty or holds the drafts that the chunking
strategy makes of the whole document; and a document in `embedding` or `ready` has exactly these
chunks. -/
theorem chunks_of_file (A : Adapters) (u : Upload) (hrejects : A.RejectsPrefixes)
    {ls : List (Label ω)} {s : Sys ω} (hrun : run (Sys.step A) u.sys ls = some s) :
    (∀ data, s.shared.objects .original = some data → data = u.data) ∧
    (∀ raw, s.shared.objects .normalized = some raw →
      ∃ n, A.parse u.mime u.data u.filename = .ok n ∧
        (raw = A.dump n ∨ Torn (· ∈ ls) ∧ raw <+: A.dump n)) ∧
    (s.shared.chunks.rows = [] ∨ u.Chunked A s.shared.chunks.rows) ∧
    (s.shared.status = some .embedding ∨ s.shared.status = some .ready →
      u.Chunked A s.shared.chunks.rows) := by
  have hw : s.shared.Content A u (Torn (· ∈ ls)) := (run_sound hrun).shared
  have hchunked : Stage.embed.Input A u (Torn (· ∈ ls)) s.shared →
    u.Chunked A s.shared.chunks.rows :=
    fun ⟨_, hdrafted, hrows⟩ => hdrafted.chunked hrejects hrows
  refine ⟨hw.original, hw.normalized, hw.chunks.imp_right hchunked, fun hstatus => ?_⟩
  cases hd : s.shared.doc with
  | none => simp [World.status, hd] at hstatus
  | some d => exact hchunked (hw.embed_input hd hstatus)

/-- **Every stage finds its input.**  In every state of every run in which the row is there, every
message that the broker may deliver and every execution has the input of its own stage and of
those before it: the uploaded file, the normalised document or, if a write of it was under way in
the run, its beginning, and the chunks of what was read of it. -/
theorem inputs_in_place (A : Adapters) (u : Upload) {ls : List (Label ω)} {s : Sys ω}
    (hrun : run (Sys.step A) u.sys ls = some s) (hdoc : s.shared.doc ≠ none) :
    (∀ m ∈ s.shared.sent, ∀ stage : Stage, stage.index ≤ m.stage.index →
      stage.Input A u (Torn (· ∈ ls)) s.shared) ∧
    (∀ x, Party.task x ∈ s.parties → ∀ stage : Stage, stage.index ≤ x.stage.index →
      stage.Input A u (Torn (· ∈ ls)) s.shared) := by
  have hs : s.Sound A u (Torn (· ∈ ls)) := run_sound hrun
  refine ⟨fun m hm => (hs.shared.sent m hm).resolve_left hdoc, fun x hx stage hstage => ?_⟩
  have hall : s.shared.Provides A u (Torn (· ∈ ls)) x.stage.index :=
    (hs.parties _ hx).1.mono x.pc.stage_le_level
  exact hall.resolve_left hdoc stage hstage

/-- A codec whose documents are two bytes long. -/
def bracketAdapters : Adapters := { sampleAdapters with
  dump := fun _ => [123, 125]
  validate := fun raw => if raw = [123, 125] then .ok { blocks := [], info := { sourceMime := "" } }
    else .error "EOF while parsing" }

theorem bracketAdapters_rejects : bracketAdapters.RejectsPrefixes := by
  intro n raw _ hne
  exact ⟨"EOF while parsing", if_neg hne⟩

/-- The sequential run, with one byte of the normalised form in the file before the rest. -/
def partRun : List (Label Nat) :=
  [.act 0 .go, .deliver 0] ++ List.replicate 3 (.act 1 .go) ++ [.act 1 (.part 1)] ++
  List.replicate 4 (.act 1 .go) ++ [.deliver 1] ++ List.replicate 6 (.act 2 .go) ++
  [.deliver 2, .act 3 .go, .act 3 .go, .act 3 .go, .act 3 (.reply (.ok [7])), .act 3 .go,
    .act 3 .go, .act 3 .go]

/-- It ends with the one chunk of the sample's document. -/
theorem chunks_of_file_part :
    ∃ s, run (Sys.step bracketAdapters) sampleUpload.sys partRun = some s ∧
      sampleUpload.Chunked bracketAdapters s.shared.chunks.rows := by
  have hready : (run (Sys.step bracketAdapters) sampleUpload.sys partRun).map
      (fun s => s.shared.status) = some (some .ready) := by decide
  obtain ⟨s, hs, hstatus⟩ := Option.map_eq_some_iff.mp hready
  exact ⟨s, hs, (chunks_of_file bracketAdapters sampleUpload bracketAdapters_rejects hs).2.2.2
    (Or.inr hstatus)⟩

/-- After it the embed message may come again, and finds the chunks. -/
theorem inputs_in_place_part :
    ∃ s, run (Sys.step bracketAdapters) sampleUpload.sys partRun = some s ∧
      (∃ m ∈ s.shared.sent, m.stage = .embed) ∧
      Stage.embed.Input bracketAdapters sampleUpload (Torn (· ∈ partRun)) s.shared := by
  have hend : (run (Sys.step bracketAdapters) sampleUpload.sys partRun).map
      (fun s => (s.shared.doc.isSome, s.shared.sent))
        = some (true, [{ stage := .parse }, { stage := .chunk }, { stage := .embed }]) := by decide
  obtain ⟨s, hs, heq⟩ := Option.map_eq_some_iff.mp hend
  obtain ⟨hdoc, hsent⟩ := Prod.mk.inj heq
  have hmem : ({ stage := .embed } : Message) ∈ s.shared.sent := by simp [hsent]
  have hsome : s.shared.doc ≠ none := fun hnone => by simp [hnone] at hdoc
  exact ⟨s, hs, ⟨_, hmem, rfl⟩, (inputs_in_place bracketAdapters sampleUpload hs hsome).1 _ hmem
    .embed (Nat.le_refl _)⟩

end AtlasKnowledge.Pipeline
