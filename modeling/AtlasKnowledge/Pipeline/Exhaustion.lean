/-
# When the embed task gives up

Two limits decide how often the embed task runs.  `_run_stage` compares `request.retries` with
`_EMBED_MAX_RETRIES = 5` and calls `_fail` when it is reached; `task.retry`, called without a
limit of its own, schedules the task again only while `request.retries + 1` is at most the
task's `max_retries`, which is 3.  So the fourth execution in a row that raises a retryable
error neither runs again nor marks the document: Celery raises the exception, and the document
stays in `embedding`.

`exhaustion` follows the executions of one embed task from a document in `embedding` until no
further one is scheduled, whatever each of them does: the document is then `ready` or `failed`
unless the fourth execution raised a retryable error while the document was in `embedding`.
-/
import AtlasKnowledge.Pipeline.Transparent

namespace AtlasKnowledge.Pipeline

open Transition

variable {ω : Type}

/-! ## 1. The executions of one task -/

/-- The database is there when the shell's `_fail` needs it. -/
def MarksAvailable {stage : Stage} (x : Solo ω stage) (c : Choice ω) : Prop :=
  x.2.isMarking = true → c = .go

instance {stage : Stage} (x : Solo ω stage) : DecidablePred (MarksAvailable x)
  | .go => .isTrue fun _ => rfl
  | .reply _ | .raise _ | .part _ =>
    decidable_of_iff (x.2.isMarking = false) (by simp [MarksAvailable])

/-- The last step of the last execution: the state before it and the environment's choice. -/
structure Last (ω : Type) where
  retries : Nat
  world : World ω
  pc : Pc ω .embed
  choice : Choice ω

/-- The successive executions of an embed task, up to the one after which none is scheduled. -/
inductive Chain (A : Adapters) : Nat → World ω → Last ω → World ω → Prop where
  | stop {retries : Nat} {w w₁ w' : World ω} {cs : List (Choice ω)} {pc : Pc ω .embed}
      {c : Choice ω} {how : Ending}
      (before : run (soloStep A retries) (w, .start) cs = some (w₁, pc))
      (available : Guarded (soloStep A retries) MarksAvailable (w, (.start : Pc ω .embed))
        (cs ++ [c]))
      (ends : stepPc A retries w₁ pc c = some (w', .ended how)) (final : how ≠ .retried) :
      Chain A retries w ⟨retries, w₁, pc, c⟩ w'
  | again {retries : Nat} {w w₁ w₂ w' : World ω} {cs : List (Choice ω)} {pc : Pc ω .embed}
      {c : Choice ω} {last : Last ω}
      (before : run (soloStep A retries) (w, .start) cs = some (w₁, pc))
      (available : Guarded (soloStep A retries) MarksAvailable (w, (.start : Pc ω .embed))
        (cs ++ [c]))
      (retried : stepPc A retries w₁ pc c = some (w₂, .ended .retried))
      (rest : Chain A (retries + 1) w₂ last w') :
      Chain A retries w last w'

/-- The choice is an error that `_run_stage` wants to retry. -/
def Choice.isRetryable : Choice ω → Bool
  | .raise e => e.retryable?.isSome
  | .reply (.error e) => e.retryable
  | _ => false

/-- The fourth execution raises a retryable error while the document is in `embedding`. -/
def Last.Strands (last : Last ω) : Prop :=
  last.retries = celeryMaxRetries ∧ last.choice.isRetryable = true ∧
    last.world.status = some .embedding

/-- The document has come to an end of the pipeline. -/
def World.Settled (w : World ω) : Prop := w.status = some .ready ∨ w.status = some .failed

/-! ## 2. What an execution leaves -/

/-- What holds throughout the executions of an embed task: the document is in `embedding` or
settled, and it is settled where an execution returns. -/
def Chained (w : World ω) : Pc ω .embed → Prop
  | .enqueueing _ => False
  | .closing => w.Settled
  | .ended .returned => w.Settled
  | .ended .marked => w.Settled
  | .ended .markLost => False
  | _ => w.status = some .embedding ∨ w.Settled

variable {A : Adapters} {retries : Nat} {w w' : World ω} {pc pc' : Pc ω .embed} {c : Choice ω}

theorem Chained.status (h : Chained w pc) : w.status = some .embedding ∨ w.Settled := by
  cases pc with
  | enqueueing next => exact h.elim
  | closing => exact Or.inr h
  | ended how =>
    cases how with
    | returned => exact Or.inr h
    | marked => exact Or.inr h
    | markLost => exact h.elim
    | retried => exact h
    | reraised => exact h
  | _ => exact h

theorem Chained.doc (h : Chained w pc) : ∃ d, w.doc = some d := by
  rcases h.status with hst | hst | hst
  · exact (exists_doc hst).imp fun _ h => h.1
  · exact (exists_doc hst).imp fun _ h => h.1
  · exact (exists_doc hst).imp fun _ h => h.1

/-- The end that an exception may come to. -/
def Pc.isThrown : Pc ω .embed → Bool
  | .ended .retried => true
  | .ended .reraised => true
  | _ => false

/-- An effect that goes through ends no execution by an exception. -/
theorem chained_go (hp : Chained w pc) (h : goPc A retries w pc = some (w', pc')) :
    Chained w' pc' ∧ pc'.isThrown = false := by
  obtain ⟨d, hd⟩ := hp.doc
  cases pc with
  | start =>
    cases hclaim : claimTx .embed w with
    | some w₁ =>
      simp only [goPc, hclaim] at h
      obtain ⟨rfl, rfl⟩ := Prod.mk.inj (Option.some.inj h)
      exact ⟨Or.inl (claimTx_status hclaim), rfl⟩
    | none =>
      simp only [goPc, hclaim] at h
      obtain ⟨rfl, rfl⟩ := Prod.mk.inj (Option.some.inj h)
      -- the claim accepts `embedding`, so the document was settled
      rcases hp with hst | hsettled
      · obtain ⟨d', hd', hst'⟩ := exists_doc hst
        obtain ⟨w', hw'⟩ : ∃ w', claimTx .embed w = some w' :=
          claimTx_isSome hd' (by rw [hst']; decide)
        rw [hclaim] at hw'
        cases hw'
      · exact ⟨hsettled, rfl⟩
  | claimed =>
    simp only [goPc, hd] at h
    obtain ⟨rfl, rfl⟩ := Prod.mk.inj (Option.some.inj h)
    exact ⟨hp, rfl⟩
  | batching =>
    obtain h := Option.some.inj h
    split at h
    · obtain ⟨rfl, rfl⟩ := Prod.mk.inj h
      exact ⟨hp, rfl⟩
    · obtain ⟨rfl, rfl⟩ := Prod.mk.inj h
      exact ⟨hp, rfl⟩
  | embedding batch => exact absurd h (by simp [goPc])
  | storing batch vectors =>
    obtain ⟨rfl, rfl⟩ := Prod.mk.inj (Option.some.inj h)
    exact ⟨hp, rfl⟩
  | finishingEmbed =>
    obtain ⟨w₁, hw₁⟩ : ∃ w₁, succeedTx .embed w = some w₁ := succeedTx_isSome hd
    simp only [goPc, commitOr, hw₁] at h
    obtain ⟨rfl, rfl⟩ := Prod.mk.inj (Option.some.inj h)
    exact ⟨Or.inl (succeedTx_status hw₁), rfl⟩
  | failing error =>
    obtain ⟨w₁, hw₁⟩ : ∃ w₁, failTx .embed error w = some w₁ := failTx_isSome hd
    simp only [goPc, commitOr, hw₁] at h
    obtain ⟨rfl, rfl⟩ := Prod.mk.inj (Option.some.inj h)
    exact ⟨Or.inr (failTx_status hw₁), rfl⟩
  | enqueueing next => exact hp.elim
  | closing =>
    obtain ⟨rfl, rfl⟩ := Prod.mk.inj (Option.some.inj h)
    exact ⟨hp, rfl⟩
  | marking error =>
    obtain ⟨w₁, hw₁⟩ : ∃ w₁, failTx .embed error w = some w₁ := failTx_isSome hd
    simp only [goPc, hw₁] at h
    obtain ⟨rfl, rfl⟩ := Prod.mk.inj (Option.some.inj h)
    exact ⟨Or.inr (failTx_status hw₁), rfl⟩
  | ended how => exact absurd h (by simp [goPc])

/-- What the shell makes of an exception: it goes to its own `_fail`, or it asks Celery for a
retry, which is granted up to Celery's limit. -/
inductive Handled (retries : Nat) (w : World ω) (e : Exc) : World ω → Pc ω .embed → Prop where
  | marking (error : String) (h : e.marks .embed retries = true) :
      Handled retries w e w (.marking error)
  | retried (h : e.marks .embed retries = false) (hle : retries + 1 ≤ celeryMaxRetries) :
      Handled retries w e (w.retry .embed retries) (.ended .retried)
  | reraised (h : e.marks .embed retries = false) (hlt : celeryMaxRetries < retries + 1) :
      Handled retries w e w (.ended .reraised)

theorem runStage_handled {e : Exc} (h : runStage .embed retries w e = (w', pc')) :
    Handled retries w e w' pc' := by
  cases hmarks : e.marks .embed retries with
  | true =>
    obtain ⟨error, herror⟩ : ∃ error, runStage .embed retries w e = (w, .marking error) :=
      runStage_of_marks hmarks
    rw [herror] at h
    obtain ⟨rfl, rfl⟩ := Prod.mk.inj h
    exact .marking error hmarks
  | false =>
    rw [runStage_of_not_marks hmarks] at h
    unfold taskRetry at h
    split at h
    · rename_i hlt
      obtain ⟨rfl, rfl⟩ := Prod.mk.inj h
      exact .reraised hmarks hlt
    · rename_i hle
      obtain ⟨rfl, rfl⟩ := Prod.mk.inj h
      exact .retried hmarks (Nat.le_of_not_lt hle)

/-- An exception that the shell does not mark is a retryable one. -/
theorem retryable_of_not_marks {stage : Stage} {e : Exc} (h : e.marks stage retries = false) :
    e.retryable?.isSome := by
  unfold Exc.marks at h
  split at h
  · rename_i hretry
    rw [hretry]
    rfl
  · exact nomatch h

/-- A failed step: the exception and what the shell makes of it. -/
theorem raisePc_handled {e : Exc} (hmark : pc.isMarking = false)
    (h : raisePc retries w e pc = some (w', pc')) :
    Handled retries w (wrapOsError pc e) w' pc' := by
  cases pc with
  | ended how => exact absurd h (by simp [raisePc])
  | marking error => cases hmark
  | _ => exact runStage_handled (Option.some.inj h)

theorem wrapOsError_retryable {stage : Stage} (pc : Pc ω stage) (e : Exc) :
    (wrapOsError pc e).retryable?.isSome = e.retryable?.isSome := by
  cases pc <;> cases e <;> rfl

/-- **How a step that does not go through leaves the stage.**  The shell handles an exception,
which is retryable only if the choice is; or the embed stage goes on. -/
theorem step_handled (hmarks : MarksAvailable (w, pc) c) (hgo : c ≠ .go)
    (h : stepPc A retries w pc c = some (w', pc')) :
    (∃ e, Handled retries w e w' pc' ∧ (e.retryable?.isSome → c.isRetryable = true)) ∨
      (w' = w ∧ pc'.isEnded = false ∧ (Chained w pc → Chained w pc')) := by
  cases c with
  | go => exact absurd rfl hgo
  | part size => cases pc <;> exact absurd h (by simp [stepPc, partPc])
  | raise e =>
    have hmark : pc.isMarking = false := by
      cases hm : pc.isMarking with
      | true => exact absurd (hmarks hm) hgo
      | false => rfl
    refine Or.inl ⟨wrapOsError pc e, raisePc_handled hmark h, ?_⟩
    rw [wrapOsError_retryable]
    exact id
  | reply r =>
    cases pc with
    | embedding batch =>
      obtain h := Option.some.inj h
      cases r with
      | ok vectors =>
        simp only at h
        split at h
        · obtain ⟨rfl, rfl⟩ := Prod.mk.inj h
          exact Or.inr ⟨rfl, rfl, id⟩
        · exact Or.inl ⟨_, runStage_handled h, fun hr => absurd hr (by decide)⟩
      | error e =>
        simp only at h
        split at h
        · rename_i hr
          exact Or.inl ⟨_, runStage_handled h, fun _ => hr⟩
        · obtain ⟨rfl, rfl⟩ := Prod.mk.inj h
          exact Or.inr ⟨rfl, rfl, id⟩
    | _ => exact absurd h (by simp [stepPc, replyPc])

/-- The shell changes no status before its own `_fail`. -/
theorem Handled.chained {e : Exc} (h : Handled retries w e w' pc')
    (hst : w.status = some .embedding ∨ w.Settled) : Chained w' pc' := by
  cases h with
  | marking error _ => exact hst
  | retried _ _ => exact hst
  | reraised _ _ => exact hst

/-- **Every step keeps the invariant.** -/
theorem chained_step (hp : Chained w pc) (hmarks : MarksAvailable (w, pc) c)
    (h : stepPc A retries w pc c = some (w', pc')) : Chained w' pc' := by
  by_cases hgo : c = .go
  · subst hgo
    exact (chained_go hp h).1
  · rcases step_handled hmarks hgo h with ⟨e, hhandled, -⟩ | ⟨rfl, -, hkeep⟩
    · exact hhandled.chained hp.status
    · exact hkeep hp

/-- **How an execution ends.**  The document is settled, or a retryable error was raised and
Celery's limit decides what becomes of it. -/
theorem ended_spec {how : Ending} (hp : Chained w pc) (hmarks : MarksAvailable (w, pc) c)
    (h : stepPc A retries w pc c = some (w', .ended how)) :
    w'.Settled ∨ (c.isRetryable = true ∧ w'.status = w.status ∧
      ((how = .retried ∧ retries + 1 ≤ celeryMaxRetries) ∨
        (how = .reraised ∧ celeryMaxRetries < retries + 1))) := by
  by_cases hgo : c = .go
  · subst hgo
    obtain ⟨hchained, hthrown⟩ := chained_go hp h
    cases how with
    | returned => exact Or.inl hchained
    | marked => exact Or.inl hchained
    | markLost => exact hchained.elim
    | retried => exact nomatch hthrown
    | reraised => exact nomatch hthrown
  · rcases step_handled hmarks hgo h with ⟨e, hhandled, hcause⟩ | ⟨-, hended, -⟩
    · cases hhandled with
      | retried hm hle =>
        exact Or.inr ⟨hcause (retryable_of_not_marks hm), rfl, Or.inl ⟨rfl, hle⟩⟩
      | reraised hm hlt =>
        exact Or.inr ⟨hcause (retryable_of_not_marks hm), rfl, Or.inr ⟨rfl, hlt⟩⟩
    · exact nomatch hended

/-- The fourth execution's retryable error leaves the world as it is. -/
theorem strands_spec (hmarks : MarksAvailable (w, pc) c) (hretry : c.isRetryable = true)
    (h : stepPc A celeryMaxRetries w pc c = some (w', pc')) : w' = w := by
  have hkeep : ∀ e : Exc, Handled celeryMaxRetries w e w' pc' → w' = w := by
    intro e hhandled
    cases hhandled with
    | marking error hm => rfl
    | retried _ hle => exact absurd hle (by decide)
    | reraised _ _ => rfl
  cases c with
  | go => exact nomatch hretry
  | part size => exact nomatch hretry
  | raise e =>
    have hmark : pc.isMarking = false := by
      cases hm : pc.isMarking with
      | true => exact nomatch hmarks hm
      | false => rfl
    exact hkeep (wrapOsError pc e) (raisePc_handled hmark h)
  | reply r =>
    cases pc with
    | embedding batch =>
      cases r with
      | ok vectors => exact nomatch hretry
      | error e =>
        have hr : e.retryable = true := hretry
        simp only [stepPc, replyPc, hr, if_true] at h
        exact hkeep _ (runStage_handled (Option.some.inj h))
    | _ => exact absurd h (by simp [stepPc, replyPc])

/-! ## 3. The chain -/

/-- An execution keeps the invariant up to its last step. -/
theorem chained_run {cs : List (Choice ω)} {w₁ : World ω}
    (hw : w.status = some .embedding ∨ w.Settled)
    (hmarks : Guarded (soloStep A retries) MarksAvailable (w, (.start : Pc ω .embed)) cs)
    (hrun : run (soloStep A retries) (w, .start) cs = some (w₁, pc)) : Chained w₁ pc := by
  have hkeep : ∀ (x : Solo ω .embed) (c : Choice ω) (x' : Solo ω .embed), Chained x.1 x.2 →
      MarksAvailable x c → soloStep A retries x c = some x' → Chained x'.1 x'.2 := by
    intro x c x' hp hm hstep
    exact chained_step hp hm hstep
  have hstart : Chained w (.start : Pc ω .embed) := hw
  exact run_invariant hkeep hstart hmarks hrun

theorem not_settled_of_embedding (h : w.status = some .embedding) : ¬ w.Settled := by
  rintro (hst | hst)
  · exact absurd (h.symm.trans hst) (by decide)
  · exact absurd (h.symm.trans hst) (by decide)

/-- The last execution settles the document exactly when it does not strand it. -/
theorem last_iff {cs : List (Choice ω)} {w₁ : World ω} {how : Ending}
    (hle : retries ≤ celeryMaxRetries) (hw : w.status = some .embedding ∨ w.Settled)
    (hrun : run (soloStep A retries) (w, .start) cs = some (w₁, pc))
    (hmarks : Guarded (soloStep A retries) MarksAvailable (w, (.start : Pc ω .embed))
      (cs ++ [c]))
    (hends : stepPc A retries w₁ pc c = some (w', .ended how)) (hfinal : how ≠ .retried) :
    w'.Settled ↔ ¬ (⟨retries, w₁, pc, c⟩ : Last ω).Strands := by
  have hp : Chained w₁ pc := chained_run hw (guarded_append.mp hmarks).1 hrun
  have hm : MarksAvailable (w₁, pc) c := hmarks.last hrun
  constructor
  · rintro hsettled ⟨hlimit, hretry, hst⟩
    obtain rfl : retries = celeryMaxRetries := hlimit
    rw [strands_spec hm hretry hends] at hsettled
    exact not_settled_of_embedding hst hsettled
  · intro hno
    rcases ended_spec hp hm hends with hsettled | ⟨hretry, hst, hhow⟩
    · exact hsettled
    · rcases hhow with ⟨rfl, -⟩ | ⟨rfl, hlt⟩
      · exact absurd rfl hfinal
      · have hlimit : retries = celeryMaxRetries := by omega
        rcases hp.status with hembedding | hsettled
        · exact absurd ⟨hlimit, hretry, hembedding⟩ hno
        · rw [World.Settled, hst]
          exact hsettled

/-- Every further execution starts from a document that is still the task's business, and
within Celery's limit. -/
theorem Chain.settled_iff {last : Last ω} (h : Chain A retries w last w') :
    retries ≤ celeryMaxRetries → (w.status = some .embedding ∨ w.Settled) →
      (w'.Settled ↔ ¬ last.Strands) := by
  induction h with
  | stop before available ends final =>
    intro hle hw
    exact last_iff hle hw before available ends final
  | again before available retried rest ih =>
    intro hle hw
    have hp := chained_run hw (guarded_append.mp available).1 before
    obtain ⟨rfl, hle'⟩ := stepPc_retried retried
    exact ih hle' hp.status

/-- **The embed task settles its document exactly when the fourth execution does not strand
it.**  From a document in `embedding`, after the last of the task's executions the document is
`ready` or `failed` if and only if that execution is not the fourth raising a retryable error on
a document still in `embedding`. -/
theorem exhaustion (A : Adapters) (w w' : World ω) (last : Last ω)
    (hw : w.status = some .embedding) (h : Chain A 0 w last w') :
    w'.Settled ↔ ¬ last.Strands := h.settled_iff (Nat.zero_le _) (Or.inl hw)

/-- A document that is waiting for its embed stage and has no chunks. -/
def sampleEmbedding : World Nat where
  doc := some { status := .embedding, mime := "text/plain", filename := "a.txt", sourceId := 0 }
  chunks := .empty
  jobs := fun _ => none
  objects := fun _ => none
  sent := []
  purgeSent := false
  nextId := 0

/-- A document with one chunk to embed. -/
def sampleUnembedded : World Nat :=
  sampleEmbedding.replaceForDocument
    (sampleAdapters.buildChunks { blocks := [], info := { sourceMime := "text/plain" } } "upload")

/-- The provider's rate limit ends the first execution; the second one embeds the chunk. -/
theorem exhaustion_retried :
    ∃ (last : Last Nat) (w' : World Nat), Chain sampleAdapters 0 sampleUnembedded last w' ∧
      last.retries = 1 ∧ w'.Settled := by
  have hchain : Chain sampleAdapters 0 sampleUnembedded ⟨1, _, .closing, .go⟩ _ :=
    @Chain.again _ _ 0 sampleUnembedded _ _ _ (List.replicate 3 .go) _
      (.reply (.error ⟨.rateLimited, "429"⟩)) _ rfl (by decide) rfl
      (@Chain.stop _ _ 1 _ _ _ (List.replicate 3 .go ++ .reply (.ok [7]) :: List.replicate 3 .go)
        _ .go _ rfl (by decide) rfl (by decide))
  refine ⟨_, _, hchain, rfl, ?_⟩
  exact (exhaustion sampleAdapters sampleUnembedded _ _ rfl hchain).mpr fun h => nomatch h.2.1

/-- An execution that claims the document and then loses the database. -/
theorem guarded_claim_fault (retries : Nat) (w : World ω) (hw : ∃ w₁, claimTx .embed w = some w₁) :
    Guarded (soloStep A retries) MarksAvailable (w, (.start : Pc ω .embed))
      ([.go] ++ [.raise (.sqlAlchemyError "OperationalError")]) := by
  obtain ⟨w₁, hclaim⟩ := hw
  refine ⟨fun _ => rfl, fun x hx => ⟨fun hm => ?_, fun _ _ => trivial⟩⟩
  simp only [soloStep, stepPc, goPc, hclaim] at hx
  obtain rfl := Option.some.inj hx
  cases hm

/-- **The fourth execution strands the document.**  Four executions in a row lose the database
after their claim: no further one is scheduled, and the document is still in `embedding`. -/
theorem not_exhaustion :
    ¬ ∀ (A : Adapters) (w w' : World Nat) (last : Last Nat), w.status = some .embedding →
      Chain A 0 w last w' → w'.Settled := by
  intro h
  have hclaim : ∀ w : World Nat, w.doc.map DocRow.status = some .embedding →
      ∃ w₁, claimTx .embed w = some w₁ := by
    intro w hw
    obtain ⟨d, hd, hst⟩ := exists_doc hw
    exact claimTx_isSome hd (by rw [hst]; decide)
  have hchain : Chain sampleAdapters 0 sampleEmbedding
      ⟨3, _, .claimed, .raise (.sqlAlchemyError "OperationalError")⟩ _ :=
    .again rfl (guarded_claim_fault 0 _ (hclaim _ rfl)) rfl
      (.again rfl (guarded_claim_fault 1 _ (hclaim _ rfl)) rfl
        (.again rfl (guarded_claim_fault 2 _ (hclaim _ rfl)) rfl
          (.stop rfl (guarded_claim_fault 3 _ (hclaim _ rfl)) rfl (by decide))))
  exact not_settled_of_embedding rfl (h sampleAdapters sampleEmbedding _ _ rfl hchain)

end AtlasKnowledge.Pipeline
