/-
# Whose vector a chunk carries

The embed stage reads a batch, asks the provider outside any transaction, and writes the vectors
back by the rows' primary keys.  In the meantime another execution may replace the chunks, embed
the same ones, or the owner may delete the document.  The keys make that safe: `new_id` never
gives one twice, so a vector that comes late finds its own row or none.

* `embedding_of_reply`: in every state of every run, an embedding that a chunk carries was the
  provider's answer for that row and its text, at a step of the run, and is marked with the
  provider's version.
-/
import AtlasKnowledge.Pipeline.Moves
import AtlasKnowledge.Lib.Assertions

namespace AtlasKnowledge.Pipeline

open Interleave Transition

variable {ω : Type}

/-! ## 1. Answers -/

/-- The batch that an execution has sent to the provider. -/
def Pc.asked? : {stage : Stage} → Pc ω stage → Option (List (ChunkRow ω))
  | _, .embedding batch => some batch
  | _, _ => none

/-- The run has a step at which the provider answered a batch with this row and this text, and the
vector stood at the row's position. -/
def Answered (A : Adapters) (u : Upload) (ls : List (Label ω)) (id : Id) (text : Text) (v : ω) :
    Prop :=
  ∃ (front back : List (Label ω)) (i : Nat) (vectors : List ω) (s : Sys ω) (x : Exec ω)
    (batch : List (ChunkRow ω)) (b : ChunkRow ω),
    ls = front ++ .act i (.reply (.ok vectors)) :: back ∧
      run (Sys.step A) u.sys front = some s ∧ s.parties[i]? = some (.task x) ∧
      x.pc.asked? = some batch ∧ vectors.length = batch.length ∧
      (b, v) ∈ batch.zip vectors ∧ b.id = id ∧ b.text = text

/-- Every answer that the step brings meets `R`, row by row. -/
def AnswersMeet (R : Id → Text → ω → Prop) (s : Sys ω) : Label ω → Prop
  | .act i (.reply (.ok vectors)) => ∀ (x : Exec ω) (batch : List (ChunkRow ω)),
      s.parties[i]? = some (.task x) → x.pc.asked? = some batch → vectors.length = batch.length →
        ∀ p ∈ batch.zip vectors, R p.1.id p.1.text p.2
  | _ => True

/-! ## 2. The invariant -/

section Invariant

variable (A : Adapters) (R : Id → Text → ω → Prop)

/-- The keys have been given out, and every embedding meets `R`. -/
structure World.Owned (w : World ω) : Prop where
  ids : ∀ c ∈ w.chunks.rows, c.id < w.nextId
  vectors : ∀ c ∈ w.chunks.rows, ∀ v, c.embedding = some v →
    R c.id c.text v ∧ c.embeddingVersion = some A.version

/-- The row was read from the table: whatever has its key now has its text. -/
def World.Knows (w : World ω) (b : ChunkRow ω) : Prop :=
  b.id < w.nextId ∧ ∀ c ∈ w.chunks.rows, c.id = b.id → c.text = b.text

/-- What an execution carries between the batch and its commit. -/
def Pc.Owns (w : World ω) : {stage : Stage} → Pc ω stage → Prop
  | _, .embedding batch => ∀ b ∈ batch, w.Knows b
  | _, .storing batch vectors =>
    (∀ b ∈ batch, w.Knows b) ∧ ∀ p ∈ batch.zip vectors, R p.1.id p.1.text p.2
  | _, _ => True

def Party.Owns (w : World ω) : Party ω → Prop
  | .task x => x.pc.Owns R w
  | .request _ => True

end Invariant

/-- Keys are never given out twice, and a row keeps its text as long as it is there. -/
structure Evolves (w w' : World ω) : Prop where
  ids : w.nextId ≤ w'.nextId
  rows : ∀ c' ∈ w'.chunks.rows,
    w.nextId ≤ c'.id ∨ ∃ c ∈ w.chunks.rows, c.id = c'.id ∧ c.text = c'.text

variable {A : Adapters} {R : Id → Text → ω → Prop} {retries : Nat} {w w' : World ω}
  {stage : Stage} {pc pc' : Pc ω stage} {c : Choice ω}

/-- A step that leaves the chunk table alone. -/
theorem Evolves.of_same (hchunks : w'.chunks = w.chunks) (hids : w'.nextId = w.nextId) :
    Evolves w w' :=
  ⟨Nat.le_of_eq hids.symm, fun c' hc' => Or.inr ⟨c', hchunks ▸ hc', rfl, rfl⟩⟩

theorem Evolves.refl (w : World ω) : Evolves w w := .of_same rfl rfl

/-- **A row that was read stays known.** -/
theorem World.Knows.evolve {b : ChunkRow ω} (h : w.Knows b) (he : Evolves w w') :
    w'.Knows b := by
  refine ⟨Nat.lt_of_lt_of_le h.1 he.ids, fun c' hc' hid => ?_⟩
  rcases he.rows c' hc' with hnew | ⟨c, hc, hcid, htext⟩
  · exact absurd (hid ▸ hnew) (Nat.not_le.mpr h.1)
  · exact htext.symm.trans (h.2 c hc (hcid.trans hid))

theorem Party.Owns.evolve {p : Party ω} (he : Evolves w w') (h : p.Owns R w) : p.Owns R w' := by
  cases p with
  | request r => trivial
  | task x =>
    obtain ⟨stage, retries, pc⟩ := x
    cases pc with
    | embedding batch => exact fun b hb => (h b hb).evolve he
    | storing batch vectors => exact ⟨fun b hb => (h.1 b hb).evolve he, h.2⟩
    | _ => trivial

theorem World.Owned.of_same (hw : w.Owned A R) (hchunks : w'.chunks = w.chunks)
    (hids : w'.nextId = w.nextId) : w'.Owned A R where
  ids := by
    rw [hchunks, hids]
    exact hw.ids
  vectors := by
    rw [hchunks]
    exact hw.vectors

/-- A row that was just read is known: its key is the table's. -/
theorem World.Owned.knows (hw : w.Owned A R) {b : ChunkRow ω} (hb : b ∈ w.chunks.rows) :
    w.Knows b := by
  refine ⟨hw.ids b hb, fun c hc hid => ?_⟩
  rw [List.inj_on_of_nodup_map w.chunks.pk hc hb hid]

/-! ## 3. The commits -/

/-- **`set_embeddings`.**  A row after it is a row before it with the same key and text, and its
embedding is the old one or one that was written for its key. -/
theorem mem_setEmbeddings {version : String} {c' : ChunkRow ω} :
    ∀ (vectors : List (Id × ω)) (w : World ω),
      c' ∈ (w.setEmbeddings vectors version).chunks.rows →
      ∃ c ∈ w.chunks.rows, c.id = c'.id ∧ c.text = c'.text ∧
        ((c'.embedding = c.embedding ∧ c'.embeddingVersion = c.embeddingVersion) ∨
          ∃ v, (c'.id, v) ∈ vectors ∧ c'.embedding = some v ∧
            c'.embeddingVersion = some version)
  | [], w, h => ⟨c', h, rfl, rfl, Or.inl ⟨rfl, rfl⟩⟩
  | p :: ps, w, h => by
    have hrest : c' ∈ (World.setEmbeddings { w with
        chunks := w.chunks.setEmbedding p.1 p.2 version } ps version).chunks.rows := h
    obtain ⟨c₁, hc₁, hid₁, htext₁, hemb₁⟩ := mem_setEmbeddings ps _ hrest
    obtain ⟨c, hc, rfl⟩ := List.mem_map.mp hc₁
    refine ⟨c, hc, ?_⟩
    by_cases hkey : c.id = p.1
    · simp only [hkey, if_true] at hid₁ htext₁ hemb₁
      refine ⟨hkey.trans hid₁, htext₁, Or.inr ?_⟩
      rcases hemb₁ with ⟨hemb, hversion⟩ | ⟨v, hv, hemb, hversion⟩
      · exact ⟨p.2, by simp [← hid₁], hemb, hversion⟩
      · exact ⟨v, List.mem_cons_of_mem _ hv, hemb, hversion⟩
    · simp only [hkey, if_false] at hid₁ htext₁ hemb₁
      refine ⟨hid₁, htext₁, hemb₁.imp_right ?_⟩
      rintro ⟨v, hv, hrest⟩
      exact ⟨v, List.mem_cons_of_mem _ hv, hrest⟩

theorem setEmbeddings_owned {batch : List (ChunkRow ω)} {vectors : List ω} (hw : w.Owned A R)
    (hknown : ∀ b ∈ batch, w.Knows b) (hmeet : ∀ p ∈ batch.zip vectors, R p.1.id p.1.text p.2) :
    (w.setEmbeddings ((batch.map ChunkRow.id).zip vectors) A.version).Owned A R ∧
      Evolves w (w.setEmbeddings ((batch.map ChunkRow.id).zip vectors) A.version) := by
  refine ⟨⟨fun c' hc' => ?_, fun c' hc' v hv => ?_⟩, Nat.le_refl _, fun c' hc' => ?_⟩
  · obtain ⟨c, hc, hid, -⟩ := mem_setEmbeddings _ w hc'
    exact hid ▸ hw.ids c hc
  · obtain ⟨c, hc, hid, htext, ⟨hemb, hversion⟩ | ⟨v', hmem, hemb, hversion⟩⟩ :=
      mem_setEmbeddings _ w hc'
    · have hold := hw.vectors c hc v (hemb.symm.trans hv)
      rw [hid, htext] at hold
      exact ⟨hold.1, hversion.trans hold.2⟩
    · obtain rfl := Option.some.inj (hemb.symm.trans hv)
      -- the vector was written for a row of the batch, and the key says which
      rw [List.zip_map_left] at hmem
      obtain ⟨⟨b, v'⟩, hpair, heq⟩ := List.mem_map.mp hmem
      obtain ⟨hbid, rfl⟩ := Prod.mk.inj heq
      have hbatch : b ∈ batch := (List.of_mem_zip hpair).1
      have hsame : c.text = b.text := (hknown b hbatch).2 c hc (hid.trans hbid.symm)
      have hvector : R b.id b.text v' := hmeet _ hpair
      refine ⟨?_, hversion⟩
      rw [← htext, hsame, ← hbid]
      exact hvector
  · obtain ⟨c, hc, hid, htext, -⟩ := mem_setEmbeddings _ w hc'
    exact Or.inr ⟨c, hc, hid, htext⟩

/-- The keys of the inserted rows. -/
theorem insertRows_id_range {nextId : Id} {drafts : List ChunkDraft} {c : ChunkRow ω}
    (hc : c ∈ insertRows nextId drafts) : nextId ≤ c.id ∧ c.id < nextId + drafts.length := by
  have hid : c.id ∈ (insertRows (ω := ω) nextId drafts).map ChunkRow.id := List.mem_map_of_mem hc
  rw [insertRows_id] at hid
  obtain ⟨k, hk, hkid⟩ := List.mem_map.mp hid
  have hlt : k < drafts.length := List.mem_range.mp hk
  rw [← hkid]
  exact ⟨Nat.le_add_right _ _, Nat.add_lt_add_left hlt _⟩

/-- **The chunk stage's commit** gives its rows new keys, and no embedding. -/
theorem replaceTx_owned {drafts : Drafts} (h : replaceTx drafts w = some w') :
    w'.Owned A R ∧ Evolves w w' := by
  obtain ⟨d, job, -, rfl⟩ := succeedTx_world h
  refine ⟨⟨fun c hc => (insertRows_id_range hc).2, fun c hc v hv => ?_⟩, ?_, fun c hc => ?_⟩
  · have hnone : c.embedding = none := insertRows_embedding _ _ hc
    exact absurd (hnone.symm.trans hv) (by simp)
  · exact Nat.le_add_right _ _
  · exact Or.inl (insertRows_id_range hc).1

/-! ## 4. One step -/

theorem runStage_owns (w₁ : World ω) (stage : Stage) (e : Exc) :
    ((runStage stage retries w e).2).Owns R w₁ := by
  have hspec : SameTables w (runStage stage retries w e).1 ∧
      ((runStage stage retries w e).2.isMarking = true ∨
        ∃ how, (runStage stage retries w e).2 = .ended how) := runStage_spec e
  rcases hspec.2 with hm | ⟨how, hm⟩
  · cases hpc : (runStage stage retries w e).2 with
    | marking error => trivial
    | _ => exact absurd hm (by simp [hpc, Pc.isMarking])
  · rw [hm]
    trivial

theorem readOriginal_owns (w₁ : World ω) (doc : DocRow) : (readOriginal A doc w).Owns R w₁ := by
  unfold readOriginal
  split
  · trivial
  · split <;> trivial

theorem readNormalized_owns (w₁ : World ω) (doc : DocRow) :
    (readNormalized A doc w).Owns R w₁ := by
  unfold readNormalized
  split
  · trivial
  · split <;> trivial

theorem moves_owned (hw : w.Owned A R) (hpc : pc.Owns R w) (h : Moves A retries w pc c w' pc')
    (hmeet : ∀ batch vectors, pc.asked? = some batch → c = .reply (.ok vectors) →
      vectors.length = batch.length → ∀ p ∈ batch.zip vectors, R p.1.id p.1.text p.2) :
    w'.Owned A R ∧ Evolves w w' ∧ pc'.Owns R w' := by
  cases h with
  | claim h =>
    obtain ⟨d, job, -, rfl⟩ := claimTx_world h
    exact ⟨hw.of_same rfl rfl, .of_same rfl rfl, trivial⟩
  | get _ =>
    refine ⟨hw, .refl w, ?_⟩
    cases stage <;> trivial
  | parse => exact ⟨hw, .refl w, readOriginal_owns w _⟩
  | write => exact ⟨hw.of_same rfl rfl, .of_same rfl rfl, trivial⟩
  | load => exact ⟨hw, .refl w, readNormalized_owns w _⟩
  | finishParse h =>
    obtain ⟨d, job, -, rfl⟩ := succeedTx_world h
    exact ⟨hw.of_same rfl rfl, .of_same rfl rfl, trivial⟩
  | replace h =>
    obtain ⟨howned, hevolves⟩ := replaceTx_owned h
    exact ⟨howned, hevolves, trivial⟩
  | batch h => exact ⟨hw, .refl w, fun b hb => hw.knows (mem_listUnembedded hb).1⟩
  | answer hlength => exact ⟨hw, .refl w, hpc, hmeet _ _ rfl rfl hlength⟩
  | store =>
    obtain ⟨howned, hevolves⟩ := setEmbeddings_owned hw hpc.1 hpc.2
    exact ⟨howned, hevolves, trivial⟩
  | finishEmbed h =>
    obtain ⟨d, job, -, rfl⟩ := succeedTx_world h
    exact ⟨hw.of_same rfl rfl, .of_same rfl rfl, trivial⟩
  | fail h =>
    obtain ⟨d, job, -, rfl⟩ := failTx_world h
    exact ⟨hw.of_same rfl rfl, .of_same rfl rfl, trivial⟩
  | mark h =>
    obtain ⟨d, job, -, rfl⟩ := failTx_world h
    exact ⟨hw.of_same rfl rfl, .of_same rfl rfl, trivial⟩
  | send => exact ⟨hw.of_same rfl rfl, .of_same rfl rfl, trivial⟩
  | part => exact ⟨hw.of_same rfl rfl, .of_same rfl rfl, trivial⟩
  | handle e raised =>
    have hworld : (runStage stage retries w e).1 = w ∨ ∃ m : Message, m.stage = stage ∧
        (runStage stage retries w e).1 = { w with sent := w.sent ++ [m] } := runStage_world e
    rcases hworld with hsame | ⟨m, -, hsent⟩
    · rw [hsame]
      exact ⟨hw, .refl w, runStage_owns w stage e⟩
    · rw [hsent]
      exact ⟨hw.of_same rfl rfl, .of_same rfl rfl, runStage_owns _ stage e⟩
  | _ => exact ⟨hw, .refl w, trivial⟩

/-- The keys and the embeddings are right, and so is every batch under way. -/
def Sys.Owned (A : Adapters) (R : Id → Text → ω → Prop) (s : Sys ω) : Prop :=
  s.Holds (World.Owned A R) (Party.Owns R)

variable {s s' : Sys ω} {l : Label ω}

/-- **One step keeps the embeddings right**, when the answers it brings meet `R`. -/
theorem step_owned (hs : s.Owned A R) (hmeet : AnswersMeet R s l) (h : s.step A l = some s') :
    s'.Owned A R := by
  have hw : s.shared.Owned A R := hs.shared
  cases step_moves h with
  | deliver m hm => exact hs.spawn trivial
  | arrive kind => exact hs.spawn trivial
  | @task i c x w pc hat hplace hmoves =>
    have hanswers : ∀ batch vectors, x.pc.asked? = some batch → c = .reply (.ok vectors) →
        vectors.length = batch.length → ∀ p ∈ batch.zip vectors, R p.1.id p.1.text p.2 := by
      rintro batch vectors hasked rfl hlength
      exact hmeet x batch hplace hasked hlength
    obtain ⟨howned, hevolves, howns⟩ := moves_owned hw (hs.parties _ hat) hmoves hanswers
    exact hs.set i howned howns fun r => Party.Owns.evolve hevolves
  | request hat _ hmoves =>
    obtain ⟨hchunks, hids, -⟩ := hmoves.frame
    exact hs.set _ (hw.of_same hchunks hids) trivial fun r =>
      Party.Owns.evolve (.of_same hchunks hids)
  | requestRaise hat hraise => exact hs.set _ hw trivial fun r hr => hr
  | delete hd =>
    refine hs.env ⟨fun c hc => ?_, fun c hc => ?_⟩ fun r => Party.Owns.evolve ?_
    · exact absurd hc (by simp [ChunkTable.empty])
    · exact absurd hc (by simp [ChunkTable.empty])
    · exact ⟨Nat.le_refl _, fun c hc => absurd hc (by simp [ChunkTable.empty])⟩
  | purge hsent =>
    exact hs.env (hw.of_same rfl rfl) fun r => Party.Owns.evolve (.of_same rfl rfl)

theorem upload_owned (A : Adapters) (R : Id → Text → ω → Prop) (u : Upload) :
    (u.sys (ω := ω)).Owned A R := by
  refine ⟨⟨fun c hc => ?_, fun c hc => ?_⟩, fun p hp => ?_⟩
  · exact absurd hc (by simp [Upload.sys, Upload.world, ChunkTable.empty])
  · exact absurd hc (by simp [Upload.sys, Upload.world, ChunkTable.empty])
  · obtain rfl := List.mem_singleton.mp hp
    trivial

/-! ## 5. Every run -/

/-- Every answer of a run is an answer of the run. -/
theorem answers_guarded {u : Upload} {ls : List (Label ω)}
    (hrun : run (Sys.step A) u.sys ls = some s) :
    Guarded (Sys.step A) (AnswersMeet (Answered A u ls)) u.sys ls := by
  refine guarded_of_reached hrun fun front l back s₁ s₂ hls _ hfront hl => ?_
  cases l with
  | act i c =>
    cases c with
    | reply r =>
      cases r with
      | ok vectors =>
        intro x batch hx hasked hlength p hp
        exact ⟨front, back, i, vectors, s₁, x, batch, p.1, hls, hfront, hx, hasked, hlength, hp,
          rfl, rfl⟩
      | error e => trivial
    | _ => trivial
  | _ => trivial

/-- **A chunk carries its own vector.**  In every state of every run, an embedding in the chunk
table is what the provider answered, at a step of the run, for the row with that key and that
text, and it is marked with the provider's version. -/
theorem embedding_of_reply (A : Adapters) (u : Upload) {ls : List (Label ω)} {s : Sys ω}
    (hrun : run (Sys.step A) u.sys ls = some s) :
    ∀ c ∈ s.shared.chunks.rows, ∀ v, c.embedding = some v →
      Answered A u ls c.id c.text v ∧ c.embeddingVersion = some A.version := by
  have howned : s.Owned A (Answered A u ls) :=
    run_invariant (fun _ _ _ => step_owned) (upload_owned A _ u) (answers_guarded hrun) hrun
  exact howned.shared.vectors

/-- In the sequential run the vector is the provider's one answer. -/
theorem embedding_of_reply_sequential :
    ∃ s, run (Sys.step sampleAdapters) sampleUpload.sys sequentialRun = some s ∧
      (∃ c ∈ s.shared.chunks.rows, c.embedding = some 7) ∧
      ∀ c ∈ s.shared.chunks.rows, ∀ v, c.embedding = some v →
        Answered sampleAdapters sampleUpload sequentialRun c.id c.text v ∧
          c.embeddingVersion = some "v1" := by
  have hend : (run (Sys.step sampleAdapters) sampleUpload.sys sequentialRun).map
      (fun s => s.shared.chunks.rows.map ChunkRow.embedding) = some [some 7] := by decide
  obtain ⟨s, hs, hrows⟩ := Option.map_eq_some_iff.mp hend
  refine ⟨s, hs, ?_, embedding_of_reply sampleAdapters sampleUpload hs⟩
  have hmem : some 7 ∈ s.shared.chunks.rows.map ChunkRow.embedding := by simp [hrows]
  obtain ⟨c, hc, hseven⟩ := List.mem_map.mp hmem
  exact ⟨c, hc, hseven⟩

end AtlasKnowledge.Pipeline
