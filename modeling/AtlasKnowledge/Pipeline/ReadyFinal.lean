/-
# Ready is final, unless a late writer is left over

A task cannot start on a `ready` document: the claim of every stage refuses it.  But the writes
that end a stage have no condition, so an execution that claimed before the document became
`ready` still writes afterwards, and the shell's `_fail` writes without having claimed at all.

* `ready_final`: a `ready` document stays `ready` through every later step of the pipeline, in
  every run in which the embed stage commits `ready` only while no other execution holds a
  claim, and no exception that the shell turns into a failure is raised on a `ready` document;
  and both conditions are exact, since a step that breaks one of them can be followed by
  pipeline steps that take the document out of `ready`.
* `not_ready_final`: two deliveries of the embed message overlap, one finishes, and the other
  one's provider call fails.
-/
import AtlasKnowledge.Pipeline.System

namespace AtlasKnowledge.Pipeline

open Interleave Transition

variable {ω : Type}

/-! ## 1. Late writers -/

/-- Another execution than the one at `i` holds a claim. -/
def OtherClaim (s : Sys ω) (i : Nat) : Prop :=
  ∃ j < s.parties.length, j ≠ i ∧ ∃ p ∈ s.parties[j]?, p.holdsClaim = true

/-- The step commits `ready` while another execution still holds a claim. -/
def CommitsEarly (s : Sys ω) : Label ω → Prop
  | .act i .go =>
    (∃ p ∈ s.parties[i]?, p.isFinishingEmbed = true) ∧ s.shared.doc ≠ none ∧ OtherClaim s i
  | _ => False

/-- The step raises, in an execution on a `ready` document, an exception on which the shell
calls `_fail`. -/
def FailsLate (s : Sys ω) : Label ω → Prop
  | .act i (.raise e) =>
    s.shared.status = some .ready ∧ ∃ p ∈ s.parties[i]?, p.failsOn e = true
  | _ => False

/-- The condition on a step: it leaves no writer behind that acts on a `ready` document. -/
def NoLateWriter (s : Sys ω) (l : Label ω) : Prop := ¬ CommitsEarly s l ∧ ¬ FailsLate s l

/-- The step belongs to the pipeline: a delivery, the purge, or a step of a task execution. -/
def ByPipeline (s : Sys ω) : Label ω → Prop
  | .deliver _ => True
  | .purge => True
  | .act i _ => ∃ x, s.parties[i]? = some (.task x)
  | .request _ => False
  | .delete => False

instance (s : Sys ω) : DecidablePred (CommitsEarly s)
  | .act i .go => inferInstanceAs (Decidable ((∃ p ∈ s.parties[i]?, p.isFinishingEmbed = true) ∧
      s.shared.doc ≠ none ∧ ∃ j < s.parties.length, j ≠ i ∧ ∃ p ∈ s.parties[j]?,
        p.holdsClaim = true))
  | .act _ (.reply _) | .act _ (.raise _) | .act _ (.part _) | .deliver _ | .request _ | .delete
  | .purge => .isFalse id

instance (s : Sys ω) : DecidablePred (FailsLate s)
  | .act i (.raise e) => inferInstanceAs (Decidable (s.shared.status = some .ready ∧
      ∃ p ∈ s.parties[i]?, p.failsOn e = true))
  | .act _ (.reply _) | .act _ .go | .act _ (.part _) | .deliver _ | .request _ | .delete
  | .purge => .isFalse id

instance (s : Sys ω) (l : Label ω) : Decidable (NoLateWriter s l) :=
  inferInstanceAs (Decidable (¬ CommitsEarly s l ∧ ¬ FailsLate s l))

instance (s : Sys ω) : DecidablePred (ByPipeline s)
  | .deliver _ | .purge => .isTrue trivial
  | .act i _ => decidable_of_iff (∃ p ∈ s.parties[i]?, p.isTask = true) (by
      constructor
      · rintro ⟨p, hp, htask⟩
        cases p with
        | task x => exact ⟨x, hp⟩
        | request r => exact nomatch htask
      · rintro ⟨x, hx⟩
        exact ⟨.task x, hx, rfl⟩)
  | .request _ | .delete => .isFalse id

theorem otherClaim_iff {s : Sys ω} {i : Nat} :
    OtherClaim s i ↔
      ∃ (j : Nat) (y : Exec ω), j ≠ i ∧ s.parties[j]? = some (.task y) ∧
        y.pc.holdsClaim = true := by
  constructor
  · rintro ⟨j, -, hji, p, hp, hclaim⟩
    cases p with
    | task y => exact ⟨j, y, hji, hp, hclaim⟩
    | request r => exact nomatch hclaim
  · rintro ⟨j, y, hji, hy, hclaim⟩
    obtain ⟨hlt, -⟩ := List.getElem?_eq_some_iff.mp hy
    exact ⟨j, hlt, hji, .task y, hy, hclaim⟩

/-- Only an embed execution commits `ready`. -/
theorem commitsEarly_iff {s : Sys ω} {l : Label ω} :
    CommitsEarly s l ↔ ∃ (i : Nat) (x : Exec ω), l = .act i .go ∧
      s.parties[i]? = some (.task x) ∧ x.pc.isFinishingEmbed = true ∧ s.shared.doc ≠ none ∧
      OtherClaim s i := by
  constructor
  · intro h
    cases l with
    | act i c =>
      cases c with
      | go =>
        obtain ⟨⟨p, hp, hfin⟩, hdoc, hother⟩ := h
        cases p with
        | task x => exact ⟨i, x, rfl, hp, hfin, hdoc, hother⟩
        | request r => exact nomatch hfin
      | _ => exact h.elim
    | _ => exact h.elim
  · rintro ⟨i, x, rfl, hx, hfin, hdoc, hother⟩
    exact ⟨⟨.task x, hx, hfin⟩, hdoc, hother⟩

/-- Only a task execution has the shell around it. -/
theorem failsLate_iff {s : Sys ω} {l : Label ω} :
    FailsLate s l ↔ ∃ (i : Nat) (x : Exec ω) (e : Exc), l = .act i (.raise e) ∧
      s.parties[i]? = some (.task x) ∧ x.pc.isMarking = false ∧ x.pc.isEnded = false ∧
      e.marks x.stage x.retries = true ∧ s.shared.status = some .ready := by
  constructor
  · intro h
    cases l with
    | act i c =>
      cases c with
      | raise e =>
        obtain ⟨hr, p, hp, hfails⟩ := h
        cases p with
        | task x =>
          have hparts : (x.pc.isMarking = false ∧ x.pc.isEnded = false) ∧
              e.marks x.stage x.retries = true := by
            simpa [Party.failsOn] using hfails
          exact ⟨i, x, e, rfl, hp, hparts.1.1, hparts.1.2, hparts.2, hr⟩
        | request r => cases hfails
      | _ => exact h.elim
    | _ => exact h.elim
  · rintro ⟨i, x, e, rfl, hx, hmark, hended, hmarks, hr⟩
    exact ⟨hr, .task x, hx, by simp [Party.failsOn, hmark, hended, hmarks]⟩

/-! ## 2. The invariant -/

/-- Nobody holds a claim on a `ready` document. -/
def FinalInv (s : Sys ω) : Prop :=
  s.shared.status = some .ready →
    ∀ (j : Nat) (y : Exec ω), s.parties[j]? = some (.task y) → y.pc.holdsClaim = false

theorem upload_finalInv (u : Upload) : FinalInv (u.sys (ω := ω)) := by
  intro h
  exact absurd h (by simp [Upload.sys, Upload.world, Upload.row, World.status])

variable {A : Adapters} {retries : Nat} {w w' : World ω} {stage : Stage} {pc pc' : Pc ω stage}
  {c : Choice ω}

/-- An execution that holds no claim does nothing to a `ready` document. -/
theorem Effect.keeps_ready (h : Effect A retries w pc c w' pc') (hr : w.status = some .ready)
    (hno : pc.holdsClaim = false) : w'.status = some .ready := by
  cases h with
  | claim hclaim =>
    obtain ⟨d, hd, hmem, -⟩ := claimTx_eq_some hclaim
    have hready : d.status = .ready := by simpa [World.status, hd] using hr
    rw [hready] at hmem
    exact absurd hmem (by cases stage <;> decide)
  | handle e _ _ => rw [(runStage_spec e).1.status, hr]
  | move tables _ _ => rw [tables.status, hr]
  | _ => exact absurd hno (by simp [Pc.holdsClaim])

/-- What an execution has become when its step leaves the document `ready`: either it committed
`ready` itself and is done with the document, or the document was `ready` before. -/
theorem Effect.releases (h : Effect A retries w pc c w' pc') (hr : w'.status = some .ready) :
    (pc.isFinishingEmbed = true ∧ c = .go ∧ w.doc ≠ none ∧ pc'.holdsClaim = false) ∨
      (w.status = some .ready ∧
        (pc.holdsClaim = false → pc'.holdsClaim = true →
          ∃ e, c = .raise e ∧ e.marks stage retries = true)) := by
  have hne : ∀ status, w'.status = some status → status ≠ .ready → False := fun status hst hne =>
    hne (Option.some.inj (hst.symm.trans hr))
  cases h with
  | claim h => exact (hne _ (claimTx_status h) (by cases stage <;> decide)).elim
  | store => exact Or.inr ⟨hr, fun hno => nomatch hno⟩
  | replace h => exact (hne _ (replaceTx_status h) (by decide)).elim
  | finishParse h => exact (hne _ (succeedTx_status h) (by decide)).elim
  | finishEmbed h =>
    obtain ⟨d, hd, -⟩ := succeedTx_eq_some h
    exact Or.inl ⟨rfl, rfl, by simp [hd], rfl⟩
  | fail h => exact (hne _ (failTx_status h) (by decide)).elim
  | mark h => exact (hne _ (failTx_status h) (by decide)).elim
  | drained => exact Or.inr ⟨hr, fun hno => nomatch hno⟩
  | handle e _ raised =>
    have hspec : SameTables w (runStage stage retries w e).1 ∧
        ((runStage stage retries w e).2.isMarking = true ∨
          ∃ how, (runStage stage retries w e).2 = .ended how) := runStage_spec e
    refine Or.inr ⟨by rwa [hspec.1.status] at hr, ?_⟩
    intro hno hclaim
    refine ⟨e, raised hno, ?_⟩
    rcases hspec.2 with hmark | ⟨how, hended⟩
    · rwa [runStage_isMarking] at hmark
    · rw [hended] at hclaim
      exact nomatch hclaim
  | move tables claim _ =>
    refine Or.inr ⟨by rwa [tables.status] at hr, ?_⟩
    intro hno hclaim
    rw [claim hclaim] at hno
    exact nomatch hno

theorem isMarking_of_holdsClaim (h : pc.holdsClaim = false) : pc.isMarking = false := by
  cases pc with
  | marking error => exact nomatch h
  | _ => rfl

/-- **One step keeps the invariant**, unless it leaves a late writer. -/
theorem step_finalInv {s s' : Sys ω} {l : Label ω} (hi : FinalInv s) (hno : NoLateWriter s l)
    (h : s.step A l = some s') : FinalInv s' := by
  intro hr j y hy
  cases step_cases h with
  | @task i c x w pc hx hstep =>
    rcases (stepPc_effect hstep).releases hr with ⟨hfin, rfl, hdoc, hreleased⟩ | ⟨hold, hraised⟩
    · rcases set_cases hy with ⟨-, heq⟩ | ⟨hji, hyold⟩
      · obtain rfl := Party.task.inj heq
        exact hreleased
      · by_contra hclaim
        have hother : OtherClaim s i :=
          otherClaim_iff.mpr ⟨j, y, hji, hyold, by simpa using hclaim⟩
        exact hno.1 (commitsEarly_iff.mpr ⟨i, x, rfl, hx, hfin, hdoc, hother⟩)
    · rcases set_cases hy with ⟨-, heq⟩ | ⟨-, hyold⟩
      · obtain rfl := Party.task.inj heq
        by_contra hclaim
        obtain ⟨e, rfl, hmarks⟩ := hraised (hi hold i x hx) (by simpa using hclaim)
        have hmark : x.pc.isMarking = false := isMarking_of_holdsClaim (hi hold i x hx)
        exact hno.2 (failsLate_iff.mpr ⟨i, x, e, rfl, hx, hmark, step_not_ended hstep,
          hmarks, hold⟩)
      · exact hi hold j y hyold
  | outside world tasks still =>
    rcases tasks j y hy with hold | hstart
    · exact hi (world.status_ready hr) j y hold
    · rw [hstart]
      rfl

/-- A pipeline step on a `ready` document leaves it `ready`. -/
theorem step_ready {s s' : Sys ω} {l : Label ω} (hi : FinalInv s)
    (hr : s.shared.status = some .ready) (hby : ByPipeline s l) (h : s.step A l = some s') :
    s'.shared.status = some .ready := by
  cases l with
  | act i c =>
    obtain ⟨x, hx⟩ := hby
    cases step_cases h with
    | task hx' hstep => exact (stepPc_effect hstep).keeps_ready hr (hi hr _ _ hx')
    | outside _ _ still => exact absurd hx (still i c x rfl)
  | deliver n =>
    obtain ⟨m, -, rfl⟩ := Option.map_eq_some_iff.mp h
    exact hr
  | purge =>
    obtain ⟨w, hw, rfl⟩ := Option.map_eq_some_iff.mp h
    unfold World.purge at hw
    split at hw
    · obtain rfl := Option.some.inj hw
      exact hr
    · exact nomatch hw
  | request kind => exact hby.elim
  | delete => exact hby.elim

/-! ## 3. A late writer always can do harm -/

/-- The run goes on by pipeline steps alone and takes the document out of `ready`. -/
def LeavesReady (A : Adapters) (s : Sys ω) : Prop :=
  ∃ ls s', Guarded (Sys.step A) ByPipeline s ls ∧ run (Sys.step A) s ls = some s' ∧
    s'.shared.status ≠ some .ready

/-- One more pipeline step in front. -/
theorem LeavesReady.cons {s s₁ : Sys ω} {l : Label ω} (hby : ByPipeline s l)
    (h : s.step A l = some s₁) (hleaves : LeavesReady A s₁) : LeavesReady A s := by
  obtain ⟨ls, s', hg, hrun, hleft⟩ := hleaves
  refine ⟨l :: ls, s', ⟨hby, fun s₂ h₂ => ?_⟩, ?_, hleft⟩
  · obtain rfl := Option.some.inj (h.symm.trans h₂)
    exact hg
  · rw [run_cons, h]
    exact hrun

/-- The shell's `_fail` takes a document out of `ready`. -/
theorem marking_leaves {s : Sys ω} {i : Nat} {x : Exec ω} (hx : s.parties[i]? = some (.task x))
    (hmark : x.pc.isMarking = true) (hr : s.shared.status = some .ready) : LeavesReady A s := by
  obtain ⟨stage, retries, pc⟩ := x
  obtain ⟨d, hd, -⟩ := Option.map_eq_some_iff.mp hr
  cases pc with
  | marking error =>
    obtain ⟨w, hw⟩ : ∃ w, failTx stage error s.shared = some w := failTx_isSome hd
    have hstep : stepPc A retries s.shared (.marking error : Pc ω stage) .go
        = some (w, .ended .marked) := by
      simp only [stepPc, goPc, hw]
    have hrun : run (Sys.step A) s [.act i .go] = some ⟨w, s.parties.set i (.task
        { stage := stage, retries := retries, pc := .ended .marked })⟩ := by
      rw [run_cons, step_task hx hstep]
      rfl
    have hleft : w.status ≠ some .ready := by
      rw [failTx_status hw]
      decide
    exact ⟨[.act i .go], _, ⟨⟨_, hx⟩, fun _ _ => trivial⟩, hrun, hleft⟩
  | _ => exact absurd hmark (by simp [Pc.isMarking])

/-- An unexpected exception brings every execution that has not ended to the shell's `_fail`. -/
theorem raise_marks (name : String) (hmark : pc.isMarking = false)
    (hended : pc.isEnded = false) :
    raisePc retries w (.other name) pc = some (w, .marking (unexpectedText stage name)) := by
  cases pc with
  | ended how => exact nomatch hended
  | marking error => exact nomatch hmark
  | _ => rfl

theorem isEnded_of_holdsClaim (h : pc.holdsClaim = true) : pc.isEnded = false := by
  cases pc with
  | ended how => exact nomatch h
  | _ => rfl

/-- An execution that still holds a claim can take the document out of `ready`. -/
theorem claim_leaves {s : Sys ω} {i : Nat} {x : Exec ω} (hx : s.parties[i]? = some (.task x))
    (hclaim : x.pc.holdsClaim = true) (hr : s.shared.status = some .ready) : LeavesReady A s := by
  cases hmark : x.pc.isMarking with
  | true => exact marking_leaves hx hmark hr
  | false =>
    have hraise : stepPc A x.retries s.shared x.pc (.raise (.other "Exception"))
        = some (s.shared, .marking (unexpectedText x.stage "Exception")) :=
      raise_marks "Exception" hmark (isEnded_of_holdsClaim hclaim)
    have hby : ByPipeline s (.act i (.raise (.other "Exception"))) := ⟨x, hx⟩
    exact LeavesReady.cons hby (step_task hx hraise) (marking_leaves (set_self hx) rfl hr)

/-- An `OSError` of the storage is retried like any other. -/
theorem wrapOsError_marks (pc : Pc ω stage) (e : Exc) :
    (wrapOsError pc e).marks stage retries = e.marks stage retries := by
  cases pc <;> cases e <;> rfl

/-- An exception on which the shell calls `_fail` brings every execution there. -/
theorem raisePc_marks {e : Exc} (hmarks : e.marks stage retries = true)
    (hmark : pc.isMarking = false) (hended : pc.isEnded = false) :
    ∃ error, raisePc retries w e pc = some (w, .marking error) := by
  rw [← wrapOsError_marks pc] at hmarks
  obtain ⟨error, herror⟩ : ∃ error,
      runStage stage retries w (wrapOsError pc e) = (w, .marking error) := runStage_of_marks hmarks
  refine ⟨error, ?_⟩
  cases pc with
  | ended how => exact nomatch hended
  | marking error => exact nomatch hmark
  | _ => exact congrArg some herror

/-- **A step that leaves a late writer leads to the defect.** -/
theorem lateWriter_leaves {s s₁ : Sys ω} {l : Label ω} (hbad : ¬ NoLateWriter s l)
    (h : s.step A l = some s₁) : s₁.shared.status = some .ready ∧ LeavesReady A s₁ := by
  have hcase : CommitsEarly s l ∨ FailsLate s l := by
    by_contra hnone
    exact hbad ⟨fun hc => hnone (Or.inl hc), fun hf => hnone (Or.inr hf)⟩
  rcases hcase with hearly | hlate
  · obtain ⟨i, ⟨stage, retries, pc⟩, rfl, hx, hfin, hdoc, hother⟩ := commitsEarly_iff.mp hearly
    obtain ⟨j, y, hji, hy, hclaim⟩ := otherClaim_iff.mp hother
    obtain ⟨d, hd⟩ := Option.ne_none_iff_exists'.mp hdoc
    cases pc with
    | finishingEmbed =>
      obtain ⟨w, hw⟩ : ∃ w, succeedTx .embed s.shared = some w := succeedTx_isSome hd
      have hstep : s.step A (.act i .go) = some ⟨w, s.parties.set i
          (.task { stage := .embed, retries := retries, pc := .closing })⟩ :=
        step_task hx (by simp only [stepPc, goPc, commitOr, hw])
      obtain rfl := Option.some.inj (hstep.symm.trans h)
      have hready : w.status = some .ready := succeedTx_status hw
      refine ⟨hready, claim_leaves (i := j) (x := y) ?_ hclaim hready⟩
      rw [set_other hji]
      exact hy
    | _ => exact absurd hfin (by simp [Pc.isFinishingEmbed])
  · obtain ⟨i, x, e, rfl, hx, hmark, hended, hmarks, hr⟩ := failsLate_iff.mp hlate
    obtain ⟨error, herror⟩ : ∃ error,
        stepPc A x.retries s.shared x.pc (.raise e) = some (s.shared, .marking error) :=
      raisePc_marks hmarks hmark hended
    obtain rfl := Option.some.inj ((step_task hx herror).symm.trans h)
    exact ⟨hr, marking_leaves (set_self hx) rfl hr⟩

/-! ## 4. The result -/

/-- **Ready is final, exactly without late writers.**  From the commit of an upload on, in every
run that leaves no late writer, a document that is `ready` after `ls` is still `ready` after any
further steps `ls'` of the pipeline; and after a step that does leave a late writer the document
is `ready`, and further steps of the pipeline can take it out of `ready`. -/
theorem ready_final (A : Adapters) (u : Upload) :
    (∀ (ls ls' : List (Label ω)) (s s' : Sys ω),
      Guarded (Sys.step A) NoLateWriter u.sys (ls ++ ls') →
      run (Sys.step A) u.sys ls = some s → s.shared.status = some .ready →
      Guarded (Sys.step A) ByPipeline s ls' → run (Sys.step A) s ls' = some s' →
      s'.shared.status = some .ready) ∧
    (∀ (ls : List (Label ω)) (s s₁ : Sys ω) (l : Label ω), run (Sys.step A) u.sys ls = some s →
      s.step A l = some s₁ → ¬ NoLateWriter s l →
      s₁.shared.status = some .ready ∧ LeavesReady A s₁) := by
  constructor
  · intro ls ls' s s' hg hrun hr hby hrun'
    obtain ⟨hg, hg'⟩ := guarded_append.mp hg
    have hinv : FinalInv s :=
      run_invariant (fun _ _ _ hi hno h => step_finalInv hi hno h) (upload_finalInv u) hg hrun
    have hstep : ∀ (s : Sys ω) (l : Label ω) (s' : Sys ω),
        (FinalInv s ∧ s.shared.status = some .ready) → (NoLateWriter s l ∧ ByPipeline s l) →
        s.step A l = some s' → FinalInv s' ∧ s'.shared.status = some .ready := by
      rintro s l s' ⟨hi, hr⟩ ⟨hno, hby⟩ h
      exact ⟨step_finalInv hi hno h, step_ready hi hr hby h⟩
    exact (run_invariant hstep ⟨hinv, hr⟩ ((hg' s hrun).and hby) hrun').2
  · intro ls s s₁ l _ h hbad
    exact lateWriter_leaves hbad h

/-- A third delivery of the embed message after the sequential run finds nothing to do. -/
theorem ready_final_redelivered :
    ∃ s s', run (Sys.step sampleAdapters) sampleUpload.sys sequentialRun = some s ∧
      run (Sys.step sampleAdapters) s [.deliver 2, .act 4 .go, .act 4 .go] = some s' ∧
      s'.shared.status = some .ready := by
  have hready : (run (Sys.step sampleAdapters) sampleUpload.sys sequentialRun).map
      (fun s => (s.shared.status, decide (Guarded (Sys.step sampleAdapters) ByPipeline s
          [.deliver 2, .act 4 .go, .act 4 .go]),
        (run (Sys.step sampleAdapters) s [.deliver 2, .act 4 .go, .act 4 .go]).isSome))
        = some (some .ready, true, true) := by decide
  obtain ⟨s, hs, heq⟩ := Option.map_eq_some_iff.mp hready
  obtain ⟨hstatus, heq⟩ := Prod.mk.inj heq
  obtain ⟨hby, hsome⟩ := Prod.mk.inj heq
  obtain ⟨s', hs'⟩ := Option.isSome_iff_exists.mp hsome
  refine ⟨s, s', hs, hs', ?_⟩
  exact (ready_final sampleAdapters sampleUpload).1 sequentialRun _ s s' (by decide) hs hstatus
    (of_decide_eq_true hby) hs'

/-- The embed message is delivered twice and both executions claim and read the one chunk.  The
first one stores its embedding and commits `ready`. -/
def doubleEmbed : List (Label Nat) :=
  [.act 0 .go, .deliver 0] ++ List.replicate 7 (.act 1 .go) ++
  [.deliver 1] ++ List.replicate 6 (.act 2 .go) ++
  [.deliver 2, .deliver 2, .act 3 .go, .act 3 .go, .act 3 .go, .act 4 .go, .act 4 .go, .act 4 .go,
    .act 3 (.reply (.ok [7])), .act 3 .go, .act 3 .go, .act 3 .go]

/-- The second one is refused by the provider and marks the stage failed. -/
def refused : List (Label Nat) :=
  [.act 4 (.reply (.error { code := .auth, message := "invalid key" })), .act 4 .go]

/-- **A late writer happens.**  A run of the system reaches a `ready` document that further
steps of the pipeline mark failed. -/
theorem not_ready_final :
    ¬ ∀ (A : Adapters) (u : Upload) (ls ls' : List (Label Nat)) (s s' : Sys Nat),
      run (Sys.step A) u.sys ls = some s → s.shared.status = some .ready →
      Guarded (Sys.step A) ByPipeline s ls' → run (Sys.step A) s ls' = some s' →
      s'.shared.status = some .ready := by
  intro h
  have hend : (run (Sys.step sampleAdapters) sampleUpload.sys doubleEmbed).map
      (fun s => (s.shared.status,
        decide (Guarded (Sys.step sampleAdapters) ByPipeline s refused),
        (run (Sys.step sampleAdapters) s refused).map fun s' => s'.shared.status))
        = some (some .ready, true, some (some .failed)) := by decide
  obtain ⟨s, hs, heq⟩ := Option.map_eq_some_iff.mp hend
  obtain ⟨hready, heq⟩ := Prod.mk.inj heq
  obtain ⟨hby, heq⟩ := Prod.mk.inj heq
  obtain ⟨s', hs', hfailed⟩ := Option.map_eq_some_iff.mp heq
  have hstill := h sampleAdapters sampleUpload doubleEmbed refused s s' hs hready
    (of_decide_eq_true hby) hs'
  exact absurd (hstill.symm.trans hfailed) (by decide)

end AtlasKnowledge.Pipeline
