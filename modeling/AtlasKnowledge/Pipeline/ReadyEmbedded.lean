/-
# Search-ready documents are fully embedded, unless a chunk commit overtakes an embed commit

Retrieval reads the chunks of `ready` documents, so `ready` has to mean that every chunk carries
an embedding.  The embed stage establishes this when it sees an empty batch, but it commits
`ready` in a later transaction, and that commit has no condition.  A chunk execution that was
delivered twice still holds its own claim, because the claim accepts the stage's running status
as a source; its `replace_for_document` can fall between the two, and the rows it inserts have
no embedding.  The second embed message then finds a `ready` document and does nothing.

* `ready_embedded`: with that one overlap excluded, the property holds in every state of every
  run; and the overlap is exact, since from every state in which it happens the pending embed
  commit produces a `ready` document with an unembedded chunk.
* `not_ready_embedded`: the overlap happens, in a run of two chunk deliveries and one embed
  delivery.
-/
import AtlasKnowledge.Pipeline.System

namespace AtlasKnowledge.Pipeline

open Interleave Transition

variable {ω : Type}

/-! ## 1. The property and the overlap -/

/-- If the document is `ready`, every chunk has an embedding. -/
def World.ReadyEmbedded (w : World ω) : Prop := w.status = some .ready → w.AllEmbedded

/-- Some embed execution has read its empty batch and not yet committed `ready`. -/
def EmbedPending (s : Sys ω) : Prop :=
  ∃ (j : Nat) (y : Exec ω), s.parties[j]? = some (.task y) ∧ y.pc.isFinishingEmbed = true

/-- The step commits at least one fresh chunk row of the (existing) document. -/
def CommitsChunks (s : Sys ω) : Label ω → Prop
  | .act i .go => ∃ p ∈ s.parties[i]?, ∃ drafts ∈ p.drafts?, drafts.list ≠ [] ∧
    s.shared.doc ≠ none
  | _ => False

/-- The condition on a step: no chunk commit overtakes a pending embed commit. -/
def NoOvertaking (s : Sys ω) (l : Label ω) : Prop := ¬ (CommitsChunks s l ∧ EmbedPending s)

instance (s : Sys ω) : Decidable (EmbedPending s) :=
  decidable_of_iff (∃ p ∈ s.parties, p.isFinishingEmbed = true) (by
    constructor
    · rintro ⟨p, hp, hfin⟩
      obtain ⟨j, hj⟩ := List.mem_iff_getElem?.mp hp
      cases p with
      | task y => exact ⟨j, y, hj, hfin⟩
      | request r => exact absurd hfin (by simp [Party.isFinishingEmbed])
    · rintro ⟨j, y, hy, hfin⟩
      exact ⟨.task y, List.mem_of_getElem? hy, hfin⟩)

instance (s : Sys ω) : DecidablePred (CommitsChunks s)
  | .act i .go => inferInstanceAs (Decidable (∃ p ∈ s.parties[i]?, ∃ drafts ∈ p.drafts?,
      drafts.list ≠ [] ∧ s.shared.doc ≠ none))
  | .act _ (.reply _) | .act _ (.raise _) | .act _ (.part _) | .deliver _ | .request _ | .delete
  | .purge => .isFalse id

instance (s : Sys ω) (l : Label ω) : Decidable (NoOvertaking s l) :=
  inferInstanceAs (Decidable (¬ (CommitsChunks s l ∧ EmbedPending s)))

/-- Only a chunk execution commits chunk rows. -/
theorem commitsChunks_iff {s : Sys ω} {l : Label ω} :
    CommitsChunks s l ↔ ∃ (i : Nat) (x : Exec ω) (drafts : Drafts), l = .act i .go ∧
      s.parties[i]? = some (.task x) ∧ x.pc.drafts? = some drafts ∧ drafts.list ≠ [] ∧
      s.shared.doc ≠ none := by
  constructor
  · intro h
    cases l with
    | act i c =>
      cases c with
      | go =>
        obtain ⟨p, hp, drafts, hdrafts, hne, hdoc⟩ := h
        cases p with
        | task x => exact ⟨i, x, drafts, rfl, hp, hdrafts, hne, hdoc⟩
        | request r => exact absurd hdrafts (by simp [Party.drafts?])
      | _ => exact absurd h id
    | _ => exact absurd h id
  · rintro ⟨i, x, drafts, rfl, hx, hdrafts, hne, hdoc⟩
    exact ⟨.task x, hx, drafts, hdrafts, hne, hdoc⟩

/-! ## 2. The invariant -/

/-- What holds between the steps: a `ready` document is embedded, and so is one whose embed
execution is about to commit `ready`. -/
structure EmbedInv (s : Sys ω) : Prop where
  ready : s.shared.ReadyEmbedded
  pending : EmbedPending s → s.shared.AllEmbedded

theorem upload_embedInv (u : Upload) : EmbedInv (u.sys (ω := ω)) where
  ready := by
    intro h
    exact absurd h (by simp [Upload.sys, Upload.world, Upload.row, World.status])
  pending := by
    intro _ c hc
    exact absurd hc (by simp [Upload.sys, Upload.world, ChunkTable.empty])

variable {A : Adapters} {retries : Nat} {w w' : World ω} {stage : Stage} {pc pc' : Pc ω stage}
  {c : Choice ω}

/-- Only the embed stage's last commit makes a document ready. -/
theorem Effect.status_ready (h : Effect A retries w pc c w' pc') (hr : w'.status = some .ready) :
    w.status = some .ready ∨ pc.isFinishingEmbed = true := by
  -- every other write of the status writes a different one
  have hne : ∀ status, w'.status = some status → status ≠ .ready →
      w.status = some .ready ∨ pc.isFinishingEmbed = true := fun status hst hne =>
    absurd (Option.some.inj (hst.symm.trans hr)) hne
  cases h with
  | claim h => exact hne _ (claimTx_status h) (by cases stage <;> decide)
  | store => exact Or.inl hr
  | replace h => exact hne _ (replaceTx_status h) (by decide)
  | finishParse h => exact hne _ (succeedTx_status h) (by decide)
  | finishEmbed => exact Or.inr rfl
  | fail h => exact hne _ (failTx_status h) (by decide)
  | mark h => exact hne _ (failTx_status h) (by decide)
  | drained => exact Or.inl hr
  | handle e _ _ => exact Or.inl (by rwa [(runStage_spec e).1.status] at hr)
  | move tables _ _ => exact Or.inl (by rwa [tables.status] at hr)

/-- Only the chunk stage's commit puts unembedded rows into the table. -/
theorem Effect.allEmbedded (h : Effect A retries w pc c w' pc') (he : w.AllEmbedded) :
    w'.AllEmbedded ∨ ∃ drafts, c = .go ∧ pc.drafts? = some drafts ∧ drafts.list ≠ [] ∧
      w.doc ≠ none ∧ w'.status = some .embedding := by
  cases h with
  | claim h =>
    obtain ⟨d, -, -, -, hchunks, -⟩ := claimTx_eq_some h
    exact Or.inl (by rwa [World.AllEmbedded, hchunks])
  | store => exact Or.inl (setEmbeddings_allEmbedded he _ _)
  | @replace drafts w' h =>
    obtain ⟨d, hd, -, hrows, -⟩ := replaceTx_eq_some h
    by_cases hnil : drafts.list = []
    · exact Or.inl (by rw [World.AllEmbedded, hrows]; exact insertRows_allEmbedded.mpr hnil)
    · exact Or.inr ⟨drafts, rfl, rfl, hnil, by simp [hd], replaceTx_status h⟩
  | finishParse h =>
    obtain ⟨d, -, -, hchunks, -⟩ := succeedTx_eq_some h
    exact Or.inl (by rwa [World.AllEmbedded, hchunks])
  | finishEmbed h =>
    obtain ⟨d, -, -, hchunks, -⟩ := succeedTx_eq_some h
    exact Or.inl (by rwa [World.AllEmbedded, hchunks])
  | fail h =>
    obtain ⟨d, -, -, hchunks, -⟩ := failTx_eq_some h
    exact Or.inl (by rwa [World.AllEmbedded, hchunks])
  | mark h =>
    obtain ⟨d, -, -, hchunks, -⟩ := failTx_eq_some h
    exact Or.inl (by rwa [World.AllEmbedded, hchunks])
  | drained => exact Or.inl he
  | handle e _ _ => exact Or.inl ((runStage_spec e).1.allEmbedded he)
  | move tables _ _ => exact Or.inl (tables.allEmbedded he)

/-- An embed execution comes to its last commit only from an empty batch, and an empty batch
means that every chunk is embedded. -/
theorem Effect.finishing (hb : 1 ≤ A.batchSize) (h : Effect A retries w pc c w' pc')
    (hf : pc'.isFinishingEmbed = true) : w'.AllEmbedded := by
  cases h with
  | drained h => exact (listUnembedded_eq_nil hb).mp h
  | handle e _ _ =>
    exact absurd hf (by simp [runStage_isFinishingEmbed])
  | @move _ pc pc' c w' _ _ plain =>
    cases pc' with
    | finishingEmbed => exact nomatch plain
    | _ => exact absurd hf (by simp [Pc.isFinishingEmbed])
  | _ => exact absurd hf (by simp [Pc.isFinishingEmbed])

/-- **One step keeps the invariant**, unless a chunk commit overtakes an embed commit. -/
theorem step_embedInv (hb : 1 ≤ A.batchSize) {s s' : Sys ω} {l : Label ω} (hi : EmbedInv s)
    (hno : NoOvertaking s l) (h : s.step A l = some s') : EmbedInv s' := by
  cases step_cases h with
  | @task i c x w pc hx hstep =>
    have heff := stepPc_effect hstep
    -- the overlap aside, a chunk commit leaves the document in `embedding` and nobody pending
    have hnew : w.AllEmbedded ∨ (¬ EmbedPending s ∧ w.status = some .embedding) ∨
        ¬ s.shared.AllEmbedded := by
      by_cases he : s.shared.AllEmbedded
      · rcases heff.allEmbedded he with hall | ⟨drafts, rfl, hd, hne, hdoc, hst⟩
        · exact Or.inl hall
        · exact Or.inr (Or.inl ⟨fun hp =>
          hno ⟨⟨.task x, hx, drafts, hd, hne, hdoc⟩, hp⟩, hst⟩)
      · exact Or.inr (Or.inr he)
    constructor
    · intro hr
      rcases hnew with hall | ⟨-, hst⟩ | hnot
      · exact hall
      · exact absurd (Option.some.inj (hst.symm.trans hr)) (by decide)
      · rcases heff.status_ready hr with hold | hfin
        · exact absurd (hi.ready hold) hnot
        · exact absurd (hi.pending ⟨i, x, hx, hfin⟩) hnot
    · rintro ⟨j, y, hy, hfin⟩
      rcases set_cases hy with ⟨-, heq⟩ | ⟨-, hold⟩
      · obtain rfl := Party.task.inj heq
        exact heff.finishing hb hfin
      · have hp : EmbedPending s := ⟨j, y, hold, hfin⟩
        rcases hnew with hall | ⟨hnp, -⟩ | hnot
        · exact hall
        · exact absurd hp hnp
        · exact absurd (hi.pending hp) hnot
  | outside world tasks still =>
    constructor
    · intro hr
      exact world.allEmbedded (hi.ready (world.status_ready hr))
    · rintro ⟨j, y, hy, hfin⟩
      rcases tasks j y hy with hold | hstart
      · exact world.allEmbedded (hi.pending ⟨j, y, hold, hfin⟩)
      · exact absurd hfin (by simp [hstart, Pc.isFinishingEmbed])

/-! ## 3. The overlap always does harm -/

/-- An execution about to commit `ready` does so on any document that is still there. -/
theorem pending_commits {s : Sys ω} {d : DocRow} (hp : EmbedPending s)
    (hd : s.shared.doc = some d) :
    ∃ l s', s.step A l = some s' ∧ s'.shared.status = some .ready ∧
      s'.shared.chunks = s.shared.chunks := by
  obtain ⟨j, ⟨stage, retries, pc⟩, hy, hfin⟩ := hp
  cases pc with
  | finishingEmbed =>
    obtain ⟨w, hw⟩ : ∃ w, succeedTx .embed s.shared = some w := succeedTx_isSome hd
    obtain ⟨-, -, -, hchunks, -⟩ := succeedTx_eq_some hw
    have hstep : stepPc A retries s.shared .finishingEmbed .go = some (w, .closing) := by
      simp only [stepPc, goPc, commitOr, hw]
    exact ⟨.act j .go, _, step_task hy hstep, succeedTx_status hw, hchunks⟩
  | _ => exact absurd hfin (by simp [Pc.isFinishingEmbed])

/-- **The overlap leads to the defect.**  When a chunk commit overtakes a pending embed commit,
that embed commit then marks the document ready with its chunks unembedded. -/
theorem overtaking_breaks {s s₁ : Sys ω} {l : Label ω} (hover : ¬ NoOvertaking s l)
    (h : s.step A l = some s₁) :
    ∃ l' s₂, s₁.step A l' = some s₂ ∧ ¬ s₂.shared.ReadyEmbedded := by
  obtain ⟨hcommits, j, y, hy, hfin⟩ := not_not.mp hover
  obtain ⟨i, ⟨stage, retries, pc⟩, drafts, rfl, hx, hdrafts, hne, hdoc⟩ :=
    commitsChunks_iff.mp hcommits
  obtain ⟨d, hd⟩ := Option.ne_none_iff_exists'.mp hdoc
  cases pc with
  | replacing drafts' =>
    obtain rfl := Option.some.inj hdrafts
    obtain ⟨w, hw⟩ : ∃ w, succeedTx .chunk (s.shared.replaceForDocument drafts') = some w :=
      succeedTx_isSome hd
    obtain ⟨d', -, hdoc', hrows, -⟩ := replaceTx_eq_some hw
    have hstep : s.step A (.act i .go) = some ⟨w, s.parties.set i
        (.task { stage := .chunk, retries := retries, pc := .enqueueing .embed })⟩ :=
      step_task hx (by simp only [stepPc, goPc, commitOr, replaceTx, hw])
    obtain rfl := Option.some.inj (hstep.symm.trans h)
    -- the embed execution is another party and still waits
    have hij : j ≠ i := by
      rintro rfl
      rw [hx] at hy
      obtain rfl := Party.task.inj (Option.some.inj hy)
      exact absurd hfin (by simp [Pc.isFinishingEmbed])
    obtain ⟨l', s₂, hs₂, hready, hchunks⟩ := pending_commits (A := A)
      (s := ⟨w, s.parties.set i
        (.task { stage := .chunk, retries := retries, pc := .enqueueing .embed })⟩)
      ⟨j, y, by rw [set_other hij]; exact hy, hfin⟩ hdoc'
    refine ⟨l', s₂, hs₂, fun hre => ?_⟩
    have hall := hre hready
    rw [World.AllEmbedded, hchunks, hrows] at hall
    exact hne (insertRows_allEmbedded.mp hall)
  | _ => exact absurd hdrafts (by simp [Pc.drafts?])

/-! ## 4. The result -/

/-- **Ready means embedded, exactly without the overlap.**  From the commit of an upload on, in
every run none of whose steps is a chunk commit that overtakes a pending embed commit, a `ready`
document has an embedding in every chunk row, in every state; and from every state of a run in
which that overlap happens, one more step reaches a `ready` document with an unembedded chunk. -/
theorem ready_embedded (A : Adapters) (hb : 1 ≤ A.batchSize) (u : Upload) :
    (∀ (ls : List (Label ω)) (s : Sys ω), Guarded (Sys.step A) NoOvertaking u.sys ls →
      run (Sys.step A) u.sys ls = some s → s.shared.ReadyEmbedded) ∧
    (∀ (ls : List (Label ω)) (s s₁ : Sys ω) (l : Label ω), run (Sys.step A) u.sys ls = some s →
      s.step A l = some s₁ → ¬ NoOvertaking s l →
      ∃ l' s₂, run (Sys.step A) u.sys (ls ++ [l, l']) = some s₂ ∧
        ¬ s₂.shared.ReadyEmbedded) := by
  constructor
  · intro ls s hg hrun
    exact (run_invariant (fun _ _ _ hi hno h => step_embedInv hb hi hno h)
      (upload_embedInv u) hg hrun).ready
  · intro ls s s₁ l hrun hl hover
    obtain ⟨l', s₂, hs₂, hbad⟩ := overtaking_breaks hover hl
    exact ⟨l', s₂, run_append_eq_some.mpr ⟨s, hrun, by simp [hl, hs₂]⟩, hbad⟩

/-- The sequential run has no overlap, so its `ready` document is embedded. -/
theorem ready_embedded_sequential :
    ∃ s, run (Sys.step sampleAdapters) sampleUpload.sys sequentialRun = some s ∧
      s.shared.status = some .ready ∧ s.shared.ReadyEmbedded := by
  have hready : (run (Sys.step sampleAdapters) sampleUpload.sys sequentialRun).map
      (fun s => s.shared.status) = some (some .ready) := by decide
  obtain ⟨s, hs, hstatus⟩ := Option.map_eq_some_iff.mp hready
  refine ⟨s, hs, hstatus, ?_⟩
  exact (ready_embedded sampleAdapters (by decide) sampleUpload).1 sequentialRun s (by decide) hs

/-- Both deliveries of the chunk message claim the document.  The first one finishes, the embed
stage sees every chunk embedded, the second one replaces the chunks, and the embed stage
commits `ready`. -/
def overtakingRun : List (Label Nat) :=
  [.act 0 .go, .deliver 0] ++ List.replicate 7 (.act 1 .go) ++
  [.deliver 1, .deliver 1, .act 2 .go, .act 3 .go] ++
  List.replicate 5 (.act 2 .go) ++ List.replicate 3 (.act 3 .go) ++
  [.deliver 2, .act 4 .go, .act 4 .go, .act 4 .go, .act 4 (.reply (.ok [7])), .act 4 .go,
    .act 4 .go, .act 3 .go, .act 4 .go]

/-- **The overlap happens.**  A run of the system reaches a `ready` document with an unembedded
chunk. -/
theorem not_ready_embedded :
    ¬ ∀ (A : Adapters), 1 ≤ A.batchSize → ∀ (u : Upload) (ls : List (Label Nat)) (s : Sys Nat),
      run (Sys.step A) u.sys ls = some s → s.shared.ReadyEmbedded := by
  intro h
  have hend : (run (Sys.step sampleAdapters) sampleUpload.sys overtakingRun).map
      (fun s => (s.shared.status, s.shared.chunks.rows.map ChunkRow.embedding))
        = some (some .ready, [none]) := by decide
  obtain ⟨s, hs, heq⟩ := Option.map_eq_some_iff.mp hend
  obtain ⟨hready, hnull⟩ := Prod.mk.inj heq
  have hall := h sampleAdapters (by decide) sampleUpload overtakingRun s hs hready
  have hmem : none ∈ s.shared.chunks.rows.map ChunkRow.embedding := by simp [hnull]
  obtain ⟨c, hc, hcnone⟩ := List.mem_map.mp hmem
  exact hall c hc hcnone

end AtlasKnowledge.Pipeline
