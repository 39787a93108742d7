/-
# Retried errors are transparent, except where the next claim refuses

An attempt that fails with a retryable error leaves what it has committed, and the task shell
has Celery run the same task again.  The attempt that follows must claim the document from the
status the failed one left.

* The chunk and embed stages claim from their own running status, so a retry repeats the stage
  and ends where an undisturbed execution ends.
* The parse stage does not claim from `parsing`: after any error between its claim and its last
  commit the retry does nothing, and the document stays in `parsing`.
* An error while the message for the next stage is sent comes after the last commit; the retry
  is refused and the message is never sent.

`transient_transparent` says that these two places are the only ones, for any number of failed
attempts; `not_transient_transparent` is one storage error in the parse stage.
-/
import AtlasKnowledge.Pipeline.Solo
import AtlasKnowledge.Pipeline.System

namespace AtlasKnowledge.Pipeline

open Transition

variable {ω : Type}

/-! ## 1. Failed attempts -/

/-- The message of Celery's retry. -/
def retryMessage (stage : Stage) (retries : Nat) : Message :=
  { stage := stage, retries := retries + 1, countdown := min (2 ^ retries) maxBackoff }

def Pc.isStart : {stage : Stage} → Pc ω stage → Bool
  | _, .start => true
  | _, _ => false

/-- Executions of one stage that follow each other, each claiming the document and each ended by
an error for which Celery schedules the task again.  The first runs with `request.retries` as
given, every later one with one more.  `places` lists where the errors were raised. -/
inductive Faults (A : Adapters) (vec : Text → ω) {stage : Stage} :
    Nat → World ω → List (Pc ω stage) → World ω → Prop where
  | nil {retries : Nat} {w : World ω} : Faults A vec retries w [] w
  | cons {retries : Nat} {w w₁ w₂ w' : World ω} {cs : List (Choice ω)} {place : Pc ω stage}
      {c : Choice ω} {places : List (Pc ω stage)}
      (claims : (claimTx stage w).isSome)
      (before : run (soloStep A retries) (w, .start) cs = some (w₁, place))
      (faithful : Guarded (soloStep A retries) (fun x c => Faithful vec x.2 c)
        (w, (.start : Pc ω stage)) cs)
      (claimed : place.isStart = false)
      (retried : stepPc A retries w₁ place c = some (w₂, .ended .retried))
      (rest : Faults A vec (retries + 1) w₂ places w') :
      Faults A vec retries w (place :: places) w'

/-- A place at which a retryable error does no harm: not where the next message is sent, and in
the parse stage only after everything is done. -/
def Harmless : {stage : Stage} → Pc ω stage → Prop
  | _, .enqueueing _ => False
  | .parse, .closing => True
  | .parse, _ => False
  | _, _ => True

/-! ## 2. What one failed attempt leaves -/

variable {A : Adapters} {vec : Text → ω} {retries : Nat} {w w' : World ω} {stage : Stage}
  {pc pc' : Pc ω stage} {c : Choice ω}

/-- What Celery's retry leaves. -/
def World.retry (w : World ω) (stage : Stage) (retries : Nat) : World ω :=
  { w with sent := w.sent ++ [retryMessage stage retries] }

theorem runStage_retried {e : Exc} (h : runStage stage retries w e = (w', .ended .retried)) :
    w' = w.retry stage retries ∧ retries + 1 ≤ celeryMaxRetries := by
  cases hmarks : e.marks stage retries with
  | true =>
    obtain ⟨error, herror⟩ : ∃ error, runStage stage retries w e = (w, .marking error) :=
      runStage_of_marks hmarks
    rw [herror] at h
    exact nomatch (Prod.mk.inj h).2
  | false =>
    rw [runStage_of_not_marks hmarks] at h
    unfold taskRetry at h
    split at h
    · exact nomatch (Prod.mk.inj h).2
    · rename_i hle
      exact ⟨(Prod.mk.inj h).1.symm, Nat.le_of_not_lt hle⟩

/-- **A failed attempt leaves what it had committed**, and the message of the retry, within
Celery's limit. -/
theorem stepPc_retried (h : stepPc A retries w pc c = some (w', .ended .retried)) :
    w' = w.retry stage retries ∧ retries + 1 ≤ celeryMaxRetries := by
  generalize hend : (Pc.ended .retried : Pc ω stage) = pc' at h
  cases stepPc_effect h with
  | handle e _ _ => exact runStage_retried (Prod.ext rfl hend.symm)
  | move _ _ plain =>
    rw [← hend] at plain
    exact nomatch plain
  | _ => exact nomatch hend

/-- An error can be retried only where the shell still stands around the stage. -/
theorem retried_inside (h : stepPc A retries w pc c = some (w', .ended .retried)) :
    pc.isMarking = false ∧ pc.isEnded = false := by
  refine ⟨?_, step_not_ended h⟩
  generalize hend : (Pc.ended .retried : Pc ω stage) = pc' at h
  cases stepPc_effect h with
  | handle _ hmark _ => exact hmark
  | mark _ => exact nomatch hend
  | move _ _ plain =>
    rw [← hend] at plain
    exact nomatch plain
  | _ => rfl

/-- The retry's message is no message for another stage. -/
theorem retry_sameInputs : SameInputs stage w (w.retry stage retries) where
  doc := rfl
  original := rfl
  normalized := fun _ => rfl
  chunks := rfl
  followUps := by simp [World.followUps, World.retry, retryMessage]

theorem retry_observed : (w.retry stage retries).observed stage = w.observed stage := by
  simp only [World.observed, retry_sameInputs.chunks, retry_sameInputs.followUps]
  rfl

/-- The stage can claim the document. -/
def Claimable (stage : Stage) (w : World ω) : Prop :=
  ∃ d, w.doc = some d ∧ d.status ∈ stage.allowedFrom

theorem claimable_iff : Claimable stage w ↔ (claimTx stage w).isSome := by
  constructor
  · rintro ⟨d, hd, hmem⟩
    obtain ⟨w', hw'⟩ : ∃ w', claimTx stage w = some w' := claimTx_isSome hd hmem
    rw [hw']
    rfl
  · intro h
    obtain ⟨w', hw'⟩ := Option.isSome_iff_exists.mp h
    obtain ⟨d, hd, hmem, -⟩ := claimTx_eq_some hw'
    exact ⟨d, hd, hmem⟩

theorem claimable_of_status {status : DocStatus} (h : w.status = some status)
    (hmem : status ∈ stage.allowedFrom) : Claimable stage w := by
  obtain ⟨d, hd, rfl⟩ := exists_doc h
  exact ⟨d, hd, hmem⟩

theorem refused_of_status {status : DocStatus} (h : w.status = some status)
    (hmem : status ∉ stage.allowedFrom) : claimTx stage w = none := by
  obtain ⟨d, hd, rfl⟩ := exists_doc h
  exact claimTx_eq_none hd hmem

theorem retry_refused (h : claimTx stage w = none) :
    claimTx stage (w.retry stage retries) = none := by
  by_contra hne
  obtain ⟨w', hw'⟩ := Option.ne_none_iff_exists'.mp hne
  obtain ⟨d, hd, hmem, -⟩ := claimTx_eq_some hw'
  have hsome : (claimTx stage w).isSome := claimable_iff.mp ⟨d, hd, hmem⟩
  rw [h] at hsome
  exact nomatch hsome

/-- No stage claims from the status its own success leads to. -/
theorem nextStatus_refused : stage.nextStatus ∉ stage.allowedFrom := by cases stage <;> decide

variable {w₀ w₁ w₂ : World ω} {place : Pc ω stage}

/-- A running stage other than parse can be repeated. -/
theorem running_repeatable (hp : Running A vec w₀ w₁ place) (hstage : stage ≠ .parse) :
    Claimable stage w₁ ∧ outcome A vec stage w₁ = outcome A vec stage w₀ := by
  refine ⟨claimable_of_status hp.status ?_, hp.outcome⟩
  cases stage with
  | parse => exact absurd rfl hstage
  | chunk => decide
  | embed => decide

/-- The outcome of the parse stage is never the status it runs in. -/
theorem outcome_parse_ne (h : w.status = some .parsing) :
    w.observed .parse ≠ outcome A vec .parse w₀ := by
  intro heq
  have hstatus : (outcome A vec .parse w₀).status = some .parsing := by
    rw [← heq]
    exact h
  cases hparsed : parsed A w₀ with
  | none => simp [outcome, hparsed, World.failedOutcome] at hstatus
  | some normalized => simp [outcome, hparsed] at hstatus

/-- **After a harmless error** the stage can be repeated with the same outcome, or there is
nothing left to do. -/
theorem harmless_spec (hp : Progress A vec w₀ w₁ place) (hstart : place.isStart = false)
    (hinside : place.isMarking = false ∧ place.isEnded = false) (h : Harmless place) :
    (Claimable stage w₁ ∧ outcome A vec stage w₁ = outcome A vec stage w₀) ∨
      (claimTx stage w₁ = none ∧ w₁.observed stage = outcome A vec stage w₀) := by
  cases place with
  | start => exact nomatch hstart
  | marking error => exact nomatch hinside.1
  | ended how => exact nomatch hinside.2
  | enqueueing next => exact h.elim
  | closing =>
    rcases hp with ⟨hstatus, hobs⟩ | ⟨hfailed, hout⟩
    · exact Or.inr ⟨refused_of_status hstatus nextStatus_refused, hobs⟩
    · exact Or.inl ⟨claimable_of_status hfailed (by cases stage <;> decide), hout⟩
  | readingOriginal doc => exact h.elim
  | writingNormalized normalized => exact h.elim
  | finishingParse => exact h.elim
  | claimed =>
    refine Or.inl (running_repeatable hp ?_)
    rintro rfl
    exact h
  | failing error =>
    refine Or.inl (running_repeatable hp ?_)
    rintro rfl
    exact h
  | _ => exact Or.inl (running_repeatable hp (by decide))

/-- **After any other error** the retry is refused, and what is there is not the outcome. -/
theorem harmful_spec (hp : Progress A vec w₀ w₁ place) (hstart : place.isStart = false)
    (hinside : place.isMarking = false ∧ place.isEnded = false) (h : ¬ Harmless place) :
    claimTx stage w₁ = none ∧ w₁.observed stage ≠ outcome A vec stage w₀ := by
  have hparse : ∀ {place : Pc ω .parse}, Running A vec w₀ w₁ place →
      claimTx .parse w₁ = none ∧ w₁.observed .parse ≠ outcome A vec .parse w₀ := fun hrun =>
    ⟨refused_of_status hrun.status (by decide), outcome_parse_ne hrun.status⟩
  cases place with
  | start => exact nomatch hstart
  | marking error => exact nomatch hinside.1
  | ended how => exact nomatch hinside.2
  | enqueueing next =>
    obtain ⟨-, hstatus, hout⟩ := hp
    refine ⟨refused_of_status hstatus nextStatus_refused, fun heq => ?_⟩
    have hlists : w₁.followUps stage = w₁.followUps stage ++ [{ stage := next }] := by
      rw [hout] at heq
      exact congrArg Observed.followUps heq
    have hlength := congrArg List.length hlists
    simp at hlength
  | closing => cases stage <;> exact absurd trivial h
  | readingOriginal doc => exact hparse hp
  | writingNormalized normalized => exact hparse hp
  | finishingParse => exact hparse hp
  | claimed =>
    cases stage with
    | parse => exact hparse hp
    | chunk => exact absurd trivial h
    | embed => exact absurd trivial h
  | failing error =>
    cases stage with
    | parse => exact hparse hp
    | chunk => exact absurd trivial h
    | embed => exact absurd trivial h
  | _ => exact absurd trivial h

/-! ## 3. Any number of failed attempts -/

/-- Where the claim is refused, no further attempt fails after its claim. -/
theorem Faults.of_refused {places : List (Pc ω stage)}
    (h : Faults A vec retries w places w') (hrefused : claimTx stage w = none) :
    places = [] ∧ w' = w := by
  cases h with
  | nil => exact ⟨rfl, rfl⟩
  | cons claims =>
    rw [hrefused] at claims
    exact nomatch claims

/-- The clean execution after the failed attempts achieves the outcome exactly when every error
was raised at a harmless place. -/
theorem Faults.outcome_iff (hb : 1 ≤ A.batchSize) {places : List (Pc ω stage)}
    (h : Faults A vec retries w places w') (hclaim : Claimable stage w) (k : Nat) :
    (cleanExec A vec stage k w').1.observed stage = outcome A vec stage w ↔
      ∀ place ∈ places, Harmless place := by
  induction h with
  | nil =>
    obtain ⟨d, hd, hmem⟩ := hclaim
    simp [(clean_spec hb hd hmem).2]
  | @cons retries w w₁ w₂ w' cs place c places claims before faithful claimed retried rest ih =>
    have hkeep : ∀ (x : Solo ω stage) (c : Choice ω) (x' : Solo ω stage),
        Progress A vec w x.1 x.2 → Faithful vec x.2 c → soloStep A retries x c = some x' →
        Progress A vec w x'.1 x'.2 := by
      intro x c x' hp hfaithful hstep
      exact progress_step hb hp hfaithful hstep
    have hstart : Progress A vec w w (.start : Pc ω stage) := by
      obtain ⟨d, hd, hmem⟩ := hclaim
      exact ⟨rfl, d, hd, hmem⟩
    have hp : Progress A vec w w₁ place := run_invariant hkeep hstart faithful before
    have hinside := retried_inside retried
    obtain ⟨rfl, -⟩ := stepPc_retried retried
    have hsame : SameInputs stage w₁ (w₁.retry stage retries) := retry_sameInputs
    by_cases hharmless : Harmless place
    · rcases harmless_spec hp claimed hinside hharmless with ⟨hagain, hout⟩ | ⟨hrefused, hobs⟩
      · rw [← hout, ← hsame.outcome, ih hagain]
        simp [hharmless]
      · have hrefused' : claimTx stage (w₁.retry stage retries) = none := retry_refused hrefused
        obtain ⟨rfl, rfl⟩ := rest.of_refused hrefused'
        rw [clean_refused hrefused', retry_observed, hobs]
        simp [hharmless]
    · obtain ⟨hrefused, hobs⟩ := harmful_spec hp claimed hinside hharmless
      have hrefused' : claimTx stage (w₁.retry stage retries) = none := retry_refused hrefused
      obtain ⟨rfl, rfl⟩ := rest.of_refused hrefused'
      rw [clean_refused hrefused', retry_observed]
      simp [hharmless, hobs]

/-- **Retried errors are transparent exactly at harmless places.**  However many attempts of a
stage failed with errors that Celery retries, each after its claim: the clean execution that
follows and a clean execution with no failed attempt before it both come to their end, and they
leave the same status, the same chunks up to ids and the same follow-up messages if and only if
every error was raised at a harmless place. -/
theorem transient_transparent (A : Adapters) (hb : 1 ≤ A.batchSize) (vec : Text → ω)
    (stage : Stage) (w w' : World ω) (places : List (Pc ω stage))
    (h : Faults A vec 0 w places w') :
    (cleanExec A vec stage places.length w').2 = .ended .returned ∧
      (cleanExec A vec stage 0 w).2 = .ended .returned ∧
      ((cleanExec A vec stage places.length w').1.observed stage
          = (cleanExec A vec stage 0 w).1.observed stage ↔
        ∀ place ∈ places, Harmless place) := by
  have hreturns : ∀ (k : Nat) (w : World ω), (cleanExec A vec stage k w).2 = .ended .returned := by
    intro k w
    cases hclaim : claimTx stage w with
    | none => rw [clean_refused hclaim]
    | some w₁ =>
      obtain ⟨d, hd, hmem, -⟩ := claimTx_eq_some hclaim
      exact (clean_spec hb hd hmem).1
  refine ⟨hreturns _ _, hreturns _ _, ?_⟩
  cases hclaim : claimTx stage w with
  | none =>
    obtain ⟨rfl, rfl⟩ := h.of_refused hclaim
    simp
  | some w₁ =>
    obtain ⟨d, hd, hmem, -⟩ := claimTx_eq_some hclaim
    rw [(clean_spec hb hd hmem).2]
    exact h.outcome_iff hb ⟨d, hd, hmem⟩ places.length

/-! ## 4. The two stages apart -/

/-- A document whose parse is done, with its result in the storage. -/
def sampleChunking : World Nat where
  doc := some { status := .chunking, mime := "text/plain", filename := "a.txt", sourceId := 0 }
  chunks := .empty
  jobs := fun _ => none
  objects := fun _ => some []
  sent := []
  purgeSent := false
  nextId := 0

/-- The storage cannot be read. -/
def storageFault : Choice Nat := .raise (.osError "EIO")

/-- An effect that goes through involves no reply of the provider. -/
theorem faithful_go : Faithful vec pc .go := by cases pc <;> exact trivial

/-- A storage error right after the claim and the load of the row. -/
theorem faults_reading {w w₁ : World Nat} {place : Pc Nat stage} (hclaim : (claimTx stage w).isSome)
    (hbefore : run (soloStep sampleAdapters 0) (w, .start) [.go, .go] = some (w₁, place))
    (hplace : place.isStart = false)
    (hretried : stepPc sampleAdapters 0 w₁ place storageFault
      = some (w₁.retry stage 0, .ended .retried)) :
    Faults sampleAdapters List.length 0 w [place] (w₁.retry stage 0) :=
  .cons hclaim hbefore ⟨faithful_go, fun _ _ => ⟨faithful_go, fun _ _ => trivial⟩⟩ hplace hretried
    .nil

/-- A storage error in the chunk stage is made good by the retry. -/
theorem transient_transparent_chunk :
    ∃ (place : Pc Nat .chunk) (w' : World Nat),
      Faults sampleAdapters List.length 0 sampleChunking [place] w' ∧
      (cleanExec sampleAdapters List.length .chunk 1 w').1.observed .chunk
        = (cleanExec sampleAdapters List.length .chunk 0 sampleChunking).1.observed .chunk := by
  have hfault : Faults sampleAdapters List.length 0 sampleChunking [.readingNormalized
      { status := .chunking, mime := "text/plain", filename := "a.txt", sourceId := 0 }] _ :=
    faults_reading rfl rfl rfl rfl
  refine ⟨_, _, hfault, ?_⟩
  exact (transient_transparent sampleAdapters (by decide) List.length .chunk sampleChunking _ _
    hfault).2.2.mpr (by simp [Harmless])

/-- **A storage error in the parse stage is not made good.**  The retry finds the document in
`parsing` and does nothing. -/
theorem not_transient_transparent :
    ¬ ∀ (A : Adapters), 1 ≤ A.batchSize → ∀ (vec : Text → Nat) (stage : Stage)
      (w w' : World Nat) (places : List (Pc Nat stage)), Faults A vec 0 w places w' →
      places.length ≤ min celeryMaxRetries stage.maxRetries →
      (cleanExec A vec stage places.length w').1.observed stage
        = (cleanExec A vec stage 0 w).1.observed stage := by
  intro h
  have hfault : Faults sampleAdapters List.length 0 sampleUpload.world [.readingOriginal
      { status := .parsing, mime := "text/plain", filename := "a.txt", sourceId := 0 }] _ :=
    faults_reading rfl rfl rfl rfl
  have hsame := h sampleAdapters (by decide) List.length .parse sampleUpload.world _ _ hfault
    (by decide)
  have hstatus := congrArg Observed.status hsame
  exact absurd hstatus (by decide)

end AtlasKnowledge.Pipeline
