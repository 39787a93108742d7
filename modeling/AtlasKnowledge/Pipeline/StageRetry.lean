/-
# Where a failed document resumes

`ingestion_jobs` is an observation log, and yet `_restart_from_failed_stage` takes the stage to
resume at from it.  With executions one after the other, every message delivered once and one
request at a time, a document has one thing under way at most: a message that waits, an execution
or a restart.  What is under way knows the shape of the log: the rows of the stages before it are
`succeeded`, those behind it are not there.

The exception is an execution whose service has done its work and whose cleanup raises: the shell
marks or retries the stage although the next message is out, or the document failed already.

* `stage_retry`: in every run without such an exception, a failed document resumes at the stage
  that failed last;
* `not_stage_retry`: the parse stage sends its message, its cleanup raises, and the chunk stage
  fails on a document that is `failed`: two rows are `failed`, and the first is not the last.
-/
import AtlasKnowledge.Pipeline.Purged

namespace AtlasKnowledge.Pipeline

open Interleave Transition

variable {ω : Type}

/-! ## 1. Runs -/

/-- The system, with the messages that wait for their delivery and the stage whose execution
failed last. -/
structure Tracked (ω : Type) where
  sys : Sys ω
  waiting : List Message
  last : Option Stage

/-- `_fail` comes next, the service's or the shell's. -/
def Pc.isFailing : {stage : Stage} → Pc ω stage → Bool
  | _, .failing _ => true
  | _, .marking _ => true
  | _, _ => false

/-- The party writes `failed` for its stage next. -/
def Party.failing? : Party ω → Option Stage
  | .task x => if x.pc.isFailing then some x.stage else none
  | .request _ => none

/-- The stage that a step marks as failed: the row is there. -/
def Sys.fails (s : Sys ω) : Label ω → Option Stage
  | .act i .go => if s.shared.doc.isSome then s.parties[i]?.bind Party.failing? else none
  | _ => none

/-- The message that a step delivers. -/
def Sys.delivered (s : Sys ω) : Label ω → Option Message
  | .deliver n => s.shared.sent[n]?
  | _ => none

/-- A step of the system, with the record of what failed last. -/
def Tracked.step (A : Adapters) (o : Tracked ω) (l : Label ω) : Option (Tracked ω) :=
  (o.sys.step A l).map fun s =>
    { sys := s
      waiting := (match o.sys.delivered l with
        | some m => o.waiting.erase m
        | none => o.waiting) ++ s.shared.sent.drop o.sys.shared.sent.length
      last := (o.sys.fails l).or o.last }

/-- Behind the upload, before any failure. -/
def Upload.tracked (u : Upload) : Tracked ω := ⟨u.sys, [], none⟩

/-- An execution that has not ended. -/
def Party.isUnended : Party ω → Bool
  | .task x => !x.pc.isEnded
  | .request _ => false

/-- A request that has not been answered. -/
def Party.isUnanswered : Party ω → Bool
  | .request ⟨_, .answered _⟩ => false
  | .request _ => true
  | .task _ => false

/-- A request that has found the document failed and has not answered yet. -/
def RequestPc.isRestarting : RequestPc → Bool
  | .reading => false
  | .answered _ => false
  | _ => true

def Party.isRestarting : Party ω → Bool
  | .request r => r.pc.isRestarting
  | .task _ => false

def Pc.isClosing : {stage : Stage} → Pc ω stage → Bool
  | _, .closing => true
  | _, _ => false

/-- Executions do not overlap, every message is delivered once, requests come one at a time and
no soft time limit fires. -/
def OneByOne (o : Tracked ω) : Label ω → Prop
  | .deliver n => (∀ m, o.sys.shared.sent[n]? = some m → m ∈ o.waiting) ∧
      ∀ p ∈ o.sys.parties, p.isUnended = false
  | .request _ => ∀ p ∈ o.sys.parties, p.isUnanswered = false
  | .act _ (.raise e) => e ≠ .softTimeLimit
  | _ => True

/-- The cleanup of an execution raises only when no message waits, no request restarts the
document and the document is not failed. -/
def CleanClose (o : Tracked ω) : Label ω → Prop
  | .act i (.raise _) => (∃ x : Exec ω, o.sys.parties[i]? = some (.task x) ∧
      x.pc.isClosing = true) →
      o.waiting = [] ∧ o.sys.shared.status ≠ some .failed ∧
        ∀ p ∈ o.sys.parties, p.isRestarting = false
  | _ => True

instance (o : Tracked ω) : DecidablePred (OneByOne o)
  | .deliver n => inferInstanceAs (Decidable ((∀ m ∈ o.sys.shared.sent[n]?, m ∈ o.waiting) ∧
      ∀ p ∈ o.sys.parties, p.isUnended = false))
  | .request _ => inferInstanceAs (Decidable (∀ p ∈ o.sys.parties, p.isUnanswered = false))
  | .act _ (.raise e) => inferInstanceAs (Decidable (e ≠ .softTimeLimit))
  | .act _ .go | .act _ (.reply _) | .act _ (.part _) | .delete | .purge => .isTrue trivial

instance (o : Tracked ω) (i : Nat) :
    Decidable (∃ x : Exec ω, o.sys.parties[i]? = some (.task x) ∧ x.pc.isClosing = true) :=
  match h : o.sys.parties[i]? with
  | some (.task x) => decidable_of_iff (x.pc.isClosing = true) (by simp)
  | some (.request _) | none => .isFalse (by simp)

instance (o : Tracked ω) : DecidablePred (CleanClose o)
  | .act i (.raise _) => inferInstanceAs (Decidable
      ((∃ x : Exec ω, o.sys.parties[i]? = some (.task x) ∧ x.pc.isClosing = true) →
        o.waiting = [] ∧ o.sys.shared.status ≠ some .failed ∧
          ∀ p ∈ o.sys.parties, p.isRestarting = false))
  | .act _ .go | .act _ (.reply _) | .act _ (.part _) | .deliver _ | .request _ | .delete
  | .purge => .isTrue trivial

/-! ## 2. The property -/

/-- The status of the stage's row. -/
def World.jobStatus (w : World ω) (stage : Stage) : Option JobStatus :=
  (w.jobs stage).map JobRow.status

/-- One row is `failed` at most; the stage to resume at is the one that failed last, with the rows
before it `succeeded`; and after the restart its claim succeeds. -/
structure Resumable (w : World ω) (last : Option Stage) : Prop where
  one : ∀ s t, w.jobStatus s = some .failed → w.jobStatus t = some .failed → s = t
  earlier : ∀ t : Stage, t.index < (w.firstFailedStage.getD .parse).index →
    w.jobStatus t = some .succeeded
  resumes : w.firstFailedStage.getD .parse = last.getD .parse
  unstarted : last = none → ∀ s, w.jobs s = none
  claims : ∀ loaded : DocRow, loaded.status = .failed →
    ∀ w', w.updateDoc loaded (w.firstFailedStage.getD .parse).entryStatus none = some w' →
      (claimTx (w.firstFailedStage.getD .parse) w').isSome = true

/-- A failed document is resumable, and what a restart is about to send is the stage that failed
last, in a status from which its claim succeeds. -/
structure Tracked.Resumes (o : Tracked ω) : Prop where
  failed : o.sys.shared.status = some .failed → Resumable o.sys.shared o.last
  sends : ∀ (i : Nat) kind loaded stage,
    o.sys.parties[i]? = some (.request ⟨kind, .enqueueing loaded stage⟩) →
    o.sys.shared.doc ≠ none →
    stage = o.last.getD .parse ∧ (claimTx stage o.sys.shared).isSome = true

/-! ## 3. The log -/

variable {w w' : World ω} {stage : Stage} {last : Option Stage}

/-- The row of the stage is written, the others are as they were. -/
structure Marks (w w' : World ω) (stage : Stage) (status : JobStatus) : Prop where
  row : w'.jobStatus stage = some status
  others : ∀ t, t ≠ stage → w'.jobs t = w.jobs t

/-- What the log looks like while the stage is under way. -/
structure Shape (w : World ω) (stage : Stage) : Prop where
  before : ∀ t : Stage, t.index < stage.index → w.jobStatus t = some .succeeded
  behind : ∀ t : Stage, stage.index < t.index → w.jobs t = none

/-- What the log looks like once the stage `last` has failed, or nothing has started. -/
def FailedLog (w : World ω) : Option Stage → Prop
  | none => ∀ s, w.jobs s = none
  | some stage => w.jobStatus stage = some .failed ∧ Shape w stage

theorem jobStatus_congr {t : Stage} (h : w'.jobs t = w.jobs t) :
    w'.jobStatus t = w.jobStatus t := by
  rw [World.jobStatus, h, World.jobStatus]

theorem Shape.congr (h : Shape w stage) (hjobs : w'.jobs = w.jobs) : Shape w' stage :=
  ⟨fun t ht => by rw [jobStatus_congr (congrFun hjobs t), h.before t ht],
    fun t ht => (congrFun hjobs t).trans (h.behind t ht)⟩

theorem FailedLog.congr (h : FailedLog w last) (hjobs : w'.jobs = w.jobs) : FailedLog w' last := by
  cases last with
  | none => exact fun s => by rw [hjobs, h s]
  | some stage => exact ⟨by rw [jobStatus_congr (congrFun hjobs stage), h.1], h.2.congr hjobs⟩

/-- Writing the row of the stage under way keeps the shape. -/
theorem Shape.marks {status : JobStatus} (h : Shape w stage) (hw : Marks w w' stage status) :
    Shape w' stage := by
  have hne : ∀ {t : Stage}, t.index ≠ stage.index → t ≠ stage :=
    fun {_} hi heq => hi (by rw [heq])
  refine ⟨fun t ht => ?_, fun t ht => ?_⟩
  · rw [jobStatus_congr (hw.others t (hne (by omega))), h.before t ht]
  · rw [hw.others t (hne (by omega)), h.behind t ht]

/-- The shape moves on with a stage that has succeeded. -/
theorem Shape.next {next : Stage} (h : Shape w stage) (hnext : next.index = stage.index + 1)
    (hrow : w.jobStatus stage = some .succeeded) : Shape w next := by
  refine ⟨fun t ht => ?_, fun t ht => h.behind t (by omega)⟩
  by_cases heq : t = stage
  · rw [heq, hrow]
  · have hne : t.index ≠ stage.index := by
      intro hi
      cases t <;> cases stage <;> first | exact heq rfl | exact absurd hi (by decide)
    exact h.before t (by omega)

theorem shape_parse_of_empty (h : ∀ s, w.jobs s = none) : Shape w .parse :=
  ⟨fun _ ht => absurd ht (Nat.not_lt_zero _), fun t _ => h t⟩

theorem FailedLog.shape (h : FailedLog w last) : Shape w (last.getD .parse) := by
  cases last with
  | none => exact shape_parse_of_empty h
  | some stage => exact h.2

/-- The first failed stage is the one that failed last. -/
theorem FailedLog.resumes (h : FailedLog w last) :
    w.firstFailedStage.getD .parse = last.getD .parse := by
  have hfind : w.firstFailedStage = stageOrder.find? fun s => w.jobStatus s = some .failed := rfl
  cases last with
  | none =>
    have hrow : ∀ s, w.jobStatus s = none := fun s => by rw [World.jobStatus, h s, Option.map_none]
    simp [hfind, stageOrder, hrow]
  | some stage =>
    obtain ⟨hrow, hbefore, -⟩ := h
    cases stage with
    | parse => simp [hfind, stageOrder, hrow]
    | chunk => simp [hfind, stageOrder, hrow, hbefore .parse (by decide)]
    | embed =>
      simp [hfind, stageOrder, hrow, hbefore .parse (by decide), hbefore .chunk (by decide)]

theorem entryStatus_mem (stage : Stage) : stage.entryStatus ∈ stage.allowedFrom := by
  cases stage <;> decide

/-- **A failed document with such a log is resumable.** -/
theorem FailedLog.resumable (h : FailedLog w last) : Resumable w last := by
  have hfirst := h.resumes
  have honly : ∀ s, w.jobStatus s = some .failed → last = some s := by
    intro s hs
    cases last with
    | none => simp [World.jobStatus, h s] at hs
    | some stage =>
      rcases Nat.lt_trichotomy s.index stage.index with hlt | heq | hgt
      · rw [h.2.before s hlt] at hs
        exact nomatch hs
      · cases s <;> cases stage <;> first | rfl | exact absurd heq (by decide)
      · simp [World.jobStatus, h.2.behind s hgt] at hs
  refine ⟨fun s t hs ht => ?_, ?_, hfirst, ?_, ?_⟩
  · exact Option.some.inj ((honly s hs).symm.trans (honly t ht))
  · rw [hfirst]
    exact h.shape.before
  · rintro rfl
    exact h
  · intro loaded hloaded w' hw
    have hne : loaded.status ≠ (w.firstFailedStage.getD .parse).entryStatus := by
      rw [hloaded]
      cases w.firstFailedStage.getD .parse <;> decide
    obtain ⟨d, hd, hentry⟩ := Option.map_eq_some_iff.mp (updateDoc_status hne hw)
    obtain ⟨w₂, hclaim⟩ := claimTx_isSome hd (hentry ▸ entryStatus_mem _)
    rw [hclaim]
    rfl

/-! ## 4. One step of an execution -/

theorem upsertJob_marks (w : World ω) (stage : Stage) (job : JobRow) :
    Marks w (w.upsertJob stage job) stage job.status :=
  ⟨by simp [World.jobStatus, World.upsertJob], fun t ht => by simp [World.upsertJob, ht]⟩

theorem claimTx_marks (h : claimTx stage w = some w') : Marks w w' stage .running := by
  obtain ⟨w₁, h₁, rfl⟩ := Option.map_eq_some_iff.mp h
  have hjobs : w₁.jobs = w.jobs := by
    unfold World.claim at h₁
    split at h₁
    · split at h₁
      · obtain rfl := Option.some.inj h₁
        rfl
      · exact nomatch h₁
    · exact nomatch h₁
  have hmarks := upsertJob_marks w₁ stage
    { status := .running, attempts := ((w₁.jobs stage).map JobRow.attempts).getD 0 + 1 }
  exact ⟨hmarks.row, fun t ht => (hmarks.others t ht).trans (congrFun hjobs t)⟩

theorem succeedTx_marks (h : succeedTx stage w = some w') : Marks w w' stage .succeeded := by
  unfold succeedTx at h
  split at h
  · obtain rfl := Option.some.inj h
    have hmarks := upsertJob_marks w stage
      { status := .succeeded, attempts := ((w.jobs stage).map JobRow.attempts).getD 1 }
    exact ⟨hmarks.row, hmarks.others⟩
  · exact nomatch h

theorem failTx_marks {error : String} (h : failTx stage error w = some w') :
    Marks w w' stage .failed := by
  unfold failTx at h
  split at h
  · obtain rfl := Option.some.inj h
    have hmarks := upsertJob_marks w stage
      { status := .failed, attempts := ((w.jobs stage).map JobRow.attempts).getD 1
        error := some error }
    exact ⟨hmarks.row, hmarks.others⟩
  · exact nomatch h

theorem replaceTx_marks {drafts : Drafts} (h : replaceTx drafts w = some w') :
    Marks w w' .chunk .succeeded :=
  ⟨(succeedTx_marks h).row, (succeedTx_marks h).others⟩

/-- The row and the log are as they were. -/
structure SameLog (w w' : World ω) : Prop where
  doc : w'.doc = w.doc
  jobs : w'.jobs = w.jobs

theorem SameLog.status (h : SameLog w w') : w'.status = w.status := by
  rw [World.status, h.doc, World.status]

/-- The execution is under way: it has not ended, and it is not being closed. -/
def Pc.isUnderWay : {stage : Stage} → Pc ω stage → Bool
  | _, .closing => false
  | _, .ended _ => false
  | _, _ => true

def Pc.isEnqueueing : {stage : Stage} → Pc ω stage → Bool
  | _, .enqueueing _ => true
  | _, _ => false

/-- What a step of an execution does to the log, the status and the messages. -/
inductive TaskMove (w : World ω) {stage : Stage} (pc : Pc ω stage) (c : Choice ω) :
    World ω → Pc ω stage → Prop where
  | claim {w' : World ω} (at_ : pc = .start) (status : w'.status = some stage.claimTo)
      (row : Marks w w' stage .running) (sent : w'.sent = w.sent) : TaskMove w pc c w' .claimed
  | succeed {w' : World ω} {pc' : Pc ω stage} (under : pc.isUnderWay = true)
      (calm : pc.isFailing = false) (status : w'.status = some stage.nextStatus)
      (row : Marks w w' stage .succeeded) (sent : w'.sent = w.sent)
      (next : pc' = .closing ∨ ∃ next, pc' = .enqueueing next ∧ next.index = stage.index + 1) :
      TaskMove w pc c w' pc'
  | fail {w' : World ω} {pc' : Pc ω stage} (failing : pc.isFailing = true) (go : c = .go)
      (status : w'.status = some .failed) (row : Marks w w' stage .failed)
      (sent : w'.sent = w.sent) (done : pc'.isUnderWay = false) : TaskMove w pc c w' pc'
  | send {w' : World ω} (next : Stage) (at_ : pc = .enqueueing next) (log : SameLog w w')
      (sent : w'.sent = w.sent ++ [{ stage := next }]) : TaskMove w pc c w' .closing
  | again {w' : World ω} {pc' : Pc ω stage} (m : Message) (same : m.stage = stage)
      (raised : pc.isClosing = true → ∃ e, c = .raise e) (calm : c = .go → pc.isFailing = false)
      (log : SameLog w w') (sent : w'.sent = w.sent ++ [m]) (done : pc'.isEnded = true) :
      TaskMove w pc c w' pc'
  | stay {w' : World ω} {pc' : Pc ω stage}
      (under : pc'.isUnderWay = true → pc.isUnderWay = true ∨
        (pc.isClosing = true ∧ ∃ e, c = .raise e))
      (calm : c = .go → pc.isFailing = false) (log : SameLog w w') (sent : w'.sent = w.sent)
      (quiet : pc'.isEnqueueing = false) : TaskMove w pc c w' pc'

theorem runStage_move {retries : Nat} {pc : Pc ω stage} {c : Choice ω} (e : Exc)
    (hpc : pc.isUnderWay = true ∨ (pc.isClosing = true ∧ ∃ e, c = .raise e)) (hc : c ≠ .go) :
    TaskMove w pc c (runStage stage retries w e).1 (runStage stage retries w e).2 := by
  have hraised : pc.isClosing = true → ∃ e, c = .raise e := by
    rcases hpc with hunder | ⟨-, hraise⟩
    · intro hclosing
      cases pc with
      | closing => exact nomatch hunder
      | _ => exact nomatch hclosing
    · exact fun _ => hraise
  cases hmarks : e.marks stage retries with
  | true =>
    obtain ⟨error, herror⟩ : ∃ error, runStage stage retries w e = (w, .marking error) :=
      runStage_of_marks hmarks
    rw [herror]
    exact .stay (fun _ => hpc) (fun h => absurd h hc) (⟨rfl, rfl⟩) rfl rfl
  | false =>
    rw [runStage_of_not_marks hmarks]
    unfold taskRetry
    split
    · exact .stay nofun (fun h => absurd h hc) (⟨rfl, rfl⟩) rfl rfl
    · exact .again _ rfl hraised (fun h => absurd h hc) ⟨rfl, rfl⟩ rfl rfl

/-- **What a step can do**, while the row is there. -/
theorem stepPc_move {A : Adapters} {retries : Nat} {pc pc' : Pc ω stage} {c : Choice ω}
    (hdoc : w.doc.isSome = true) (h : stepPc A retries w pc c = some (w', pc')) :
    TaskMove w pc c w' pc' := by
  obtain ⟨d, hd⟩ := Option.isSome_iff_exists.mp hdoc
  cases c with
  | go =>
    -- a step inside the stage that touches no table
    have hstay : ∀ {w' : World ω} {pc' : Pc ω stage}, pc.isUnderWay = true → pc.isFailing = false →
        SameLog w w' → w'.sent = w.sent → pc'.isEnqueueing = false → TaskMove w pc .go w' pc' :=
      fun hunder hcalm hlog hsent hquiet =>
        .stay (fun _ => .inl hunder) (fun _ => hcalm) hlog hsent hquiet
    cases pc with
    | start =>
      obtain h := Option.some.inj h
      split at h
      · rename_i hclaim
        obtain ⟨rfl, rfl⟩ := Prod.mk.inj h
        obtain ⟨-, -, -, -, -, hsent, -⟩ := claimTx_eq_some hclaim
        exact .claim rfl (claimTx_status hclaim) (claimTx_marks hclaim) hsent
      · obtain ⟨rfl, rfl⟩ := Prod.mk.inj h
        exact hstay rfl rfl (⟨rfl, rfl⟩) rfl rfl
    | claimed =>
      obtain h := Option.some.inj h
      rw [hd] at h
      obtain ⟨rfl, rfl⟩ := Prod.mk.inj h
      exact hstay rfl rfl (⟨rfl, rfl⟩) rfl (by cases stage <;> rfl)
    | readingOriginal doc =>
      obtain ⟨rfl, rfl⟩ := Prod.mk.inj (Option.some.inj h)
      refine hstay rfl rfl (⟨rfl, rfl⟩) rfl ?_
      unfold readOriginal
      split
      · rfl
      · split <;> rfl
    | writingNormalized normalized =>
      obtain ⟨rfl, rfl⟩ := Prod.mk.inj (Option.some.inj h)
      exact hstay rfl rfl ⟨rfl, rfl⟩ rfl rfl
    | finishingParse =>
      obtain ⟨w₁, hw₁⟩ := @succeedTx_isSome _ _ .parse _ hd
      obtain ⟨-, -, -, -, hsent, -⟩ := succeedTx_eq_some hw₁
      obtain h := Option.some.inj h
      rw [hw₁] at h
      obtain ⟨rfl, rfl⟩ := Prod.mk.inj h
      exact .succeed rfl rfl (succeedTx_status hw₁) (succeedTx_marks hw₁) hsent (.inr ⟨_, rfl, rfl⟩)
    | readingNormalized doc =>
      obtain ⟨rfl, rfl⟩ := Prod.mk.inj (Option.some.inj h)
      refine hstay rfl rfl (⟨rfl, rfl⟩) rfl ?_
      unfold readNormalized
      split
      · rfl
      · split <;> rfl
    | readingSource doc normalized =>
      obtain ⟨rfl, rfl⟩ := Prod.mk.inj (Option.some.inj h)
      exact hstay rfl rfl (⟨rfl, rfl⟩) rfl rfl
    | replacing drafts =>
      obtain ⟨w₁, hw₁⟩ : ∃ w₁, replaceTx drafts w = some w₁ :=
        succeedTx_isSome (w := w.replaceForDocument drafts) hd
      obtain ⟨-, -, -, -, hsent, -⟩ := replaceTx_eq_some hw₁
      obtain h := Option.some.inj h
      rw [hw₁] at h
      obtain ⟨rfl, rfl⟩ := Prod.mk.inj h
      exact .succeed rfl rfl (replaceTx_status hw₁) (replaceTx_marks hw₁) hsent (.inr ⟨_, rfl, rfl⟩)
    | batching =>
      obtain h := Option.some.inj h
      split at h <;> obtain ⟨rfl, rfl⟩ := Prod.mk.inj h <;>
        exact hstay rfl rfl (⟨rfl, rfl⟩) rfl rfl
    | embedding batch => cases h
    | storing batch vectors =>
      obtain ⟨rfl, rfl⟩ := Prod.mk.inj (Option.some.inj h)
      exact hstay rfl rfl ⟨rfl, rfl⟩ rfl rfl
    | finishingEmbed =>
      obtain ⟨w₁, hw₁⟩ := @succeedTx_isSome _ _ .embed _ hd
      obtain ⟨-, -, -, -, hsent, -⟩ := succeedTx_eq_some hw₁
      obtain h := Option.some.inj h
      rw [hw₁] at h
      obtain ⟨rfl, rfl⟩ := Prod.mk.inj h
      exact .succeed rfl rfl (succeedTx_status hw₁) (succeedTx_marks hw₁) hsent (.inl rfl)
    | failing error =>
      obtain ⟨w₁, hw₁⟩ := @failTx_isSome _ _ stage error _ hd
      obtain ⟨-, -, -, -, hsent, -⟩ := failTx_eq_some hw₁
      obtain h := Option.some.inj h
      rw [hw₁] at h
      obtain ⟨rfl, rfl⟩ := Prod.mk.inj h
      exact .fail rfl rfl (failTx_status hw₁) (failTx_marks hw₁) hsent rfl
    | enqueueing next =>
      obtain ⟨rfl, rfl⟩ := Prod.mk.inj (Option.some.inj h)
      exact .send next rfl ⟨rfl, rfl⟩ rfl
    | closing =>
      obtain ⟨rfl, rfl⟩ := Prod.mk.inj (Option.some.inj h)
      exact .stay (by rintro ⟨⟩) (fun _ => rfl) (⟨rfl, rfl⟩) rfl rfl
    | marking error =>
      obtain ⟨w₁, hw₁⟩ := @failTx_isSome _ _ stage error _ hd
      obtain ⟨-, -, -, -, hsent, -⟩ := failTx_eq_some hw₁
      obtain h := Option.some.inj h
      rw [hw₁] at h
      obtain ⟨rfl, rfl⟩ := Prod.mk.inj h
      exact .fail rfl rfl (failTx_status hw₁) (failTx_marks hw₁) hsent rfl
    | ended how => cases h
  | reply r =>
    cases pc with
    | embedding batch =>
      obtain h := Option.some.inj h
      split at h
      · split at h
        · obtain ⟨rfl, rfl⟩ := Prod.mk.inj h
          exact .stay (fun _ => .inl rfl) (by rintro ⟨⟩) (⟨rfl, rfl⟩) rfl rfl
        · obtain ⟨rfl, rfl⟩ := Prod.ext_iff.mp h
          exact runStage_move _ (.inl rfl) (by rintro ⟨⟩)
      · split at h
        · obtain ⟨rfl, rfl⟩ := Prod.ext_iff.mp h
          exact runStage_move _ (.inl rfl) (by rintro ⟨⟩)
        · obtain ⟨rfl, rfl⟩ := Prod.mk.inj h
          exact .stay (fun _ => .inl rfl) (by rintro ⟨⟩) (⟨rfl, rfl⟩) rfl rfl
    | _ => exact absurd h (by simp [stepPc, replyPc])
  | part size =>
    cases pc with
    | writingNormalized normalized =>
      obtain ⟨rfl, rfl⟩ := Prod.mk.inj (Option.some.inj h)
      exact .stay (fun _ => .inl rfl) (by rintro ⟨⟩) ⟨rfl, rfl⟩ rfl rfl
    | _ => exact absurd h (by simp [stepPc, partPc])
  | raise e =>
    cases pc with
    | ended how => cases h
    | marking error =>
      obtain ⟨rfl, rfl⟩ := Prod.mk.inj (Option.some.inj h)
      exact .stay (by rintro ⟨⟩) (by rintro ⟨⟩) (⟨rfl, rfl⟩) rfl rfl
    | closing =>
      obtain ⟨rfl, rfl⟩ := Prod.ext_iff.mp (Option.some.inj h)
      exact runStage_move _ (.inr ⟨rfl, e, rfl⟩) (by rintro ⟨⟩)
    | _ =>
      obtain ⟨rfl, rfl⟩ := Prod.ext_iff.mp (Option.some.inj h)
      exact runStage_move _ (.inl rfl) (by rintro ⟨⟩)

/-! ## 5. What is under way -/

/-- What the document waits for: nothing, a message, an execution or a restart. -/
inductive Holder where
  | none
  | message (m : Message)
  | task (i : Nat)
  | request (i : Nat)

/-- The messages that a holder stands for. -/
def Holder.messages : Holder → List Message
  | .message m => [m]
  | _ => []

/-- What a restart has done so far. -/
def RequestPc.Known (w : World ω) (last : Option Stage) : RequestPc → Prop
  | .deciding loaded => w.status = some .failed ∧ loaded.status = .failed
  | .resetting loaded stage =>
    w.status = some .failed ∧ loaded.status = .failed ∧ stage = last.getD .parse
  | .refreshing stage | .enqueueing _ stage =>
    w.status = some stage.entryStatus ∧ stage = last.getD .parse
  | _ => True

/-- An execution knows the shape of the log, and what it sends is the next stage. -/
structure Exec.Known (w : World ω) (x : Exec ω) : Prop where
  shape : Shape w x.stage
  next : ∀ next, x.pc = .enqueueing next →
    next.index = x.stage.index + 1 ∧ w.jobStatus x.stage = some .succeeded

/-- One thing is under way at most. -/
structure Held (parties : List (Party ω)) (h : Holder) : Prop where
  tasks : ∀ (i : Nat) (x : Exec ω), parties[i]? = some (.task x) → x.pc.isUnderWay = true →
    h = .task i
  requests : ∀ (i : Nat) r, parties[i]? = some (.request r) → r.pc.isRestarting = true →
    h = .request i
  oneTask : ∀ (i j : Nat) (p q : Party ω), parties[i]? = some p → parties[j]? = some q →
    p.isUnended = true → q.isUnended = true → i = j
  oneRequest : ∀ (i j : Nat) (p q : Party ω), parties[i]? = some p → parties[j]? = some q →
    p.isUnanswered = true → q.isUnanswered = true → i = j

/-- The parties know the log. -/
structure Informed (w : World ω) (last : Option Stage) (parties : List (Party ω)) : Prop where
  tasks : ∀ (i : Nat) (x : Exec ω), parties[i]? = some (.task x) → x.pc.isEnded = false → x.Known w
  requests : ∀ (i : Nat) r, parties[i]? = some (.request r) → r.pc.isRestarting = true →
    FailedLog w last ∧ r.pc.Known w last

/-- **The invariant**, while the row is there. -/
structure Tracked.Inv (o : Tracked ω) (h : Holder) : Prop where
  doc : o.sys.shared.doc.isSome = true
  waiting : o.waiting = h.messages
  held : Held o.sys.parties h
  failed : o.sys.shared.status = some .failed →
    FailedLog o.sys.shared o.last ∧ (h = .none ∨ ∃ i, h = .request i)
  shape : ∀ m, h = .message m → Shape o.sys.shared m.stage
  informed : Informed o.sys.shared o.last o.sys.parties

/-- A party that moves does not add to what has not ended or answered. -/
theorem Held.one_set {parties : List (Party ω)} {i : Nat} {p q : Party ω} (f : Party ω → Bool)
    (hone : ∀ (i j : Nat) (p q : Party ω), parties[i]? = some p → parties[j]? = some q →
      f p = true → f q = true → i = j)
    (hp : parties[i]? = some p) (hpq : f q = true → f p = true) :
    ∀ (j k : Nat) (r t : Party ω), (parties.set i q)[j]? = some r → (parties.set i q)[k]? = some t →
      f r = true → f t = true → j = k := by
  have hback : ∀ {j : Nat} {r : Party ω}, (parties.set i q)[j]? = some r → f r = true →
      ∃ r', parties[j]? = some r' ∧ f r' = true := by
    intro j r hj hr
    rcases set_cases hj with ⟨rfl, rfl⟩ | ⟨-, hj⟩
    · exact ⟨p, hp, hpq hr⟩
    · exact ⟨r, hj, hr⟩
  intro j k r t hj hk hr ht
  obtain ⟨r', hj', hr'⟩ := hback hj hr
  obtain ⟨t', hk', ht'⟩ := hback hk ht
  exact hone j k r' t' hj' hk' hr' ht'

variable {A : Adapters} {o o' : Tracked ω} {h : Holder} {i : Nat}

/-- The execution at `i` is the only thing under way. -/
structure Alone (o : Tracked ω) : Prop where
  waiting : o.waiting = []
  status : o.sys.shared.status ≠ some .failed
  requests : ∀ (j : Nat) r, o.sys.parties[j]? = some (.request r) → r.pc.isRestarting = false

theorem Tracked.Inv.alone {x : Exec ω} (ho : o.Inv h) (hx : o.sys.parties[i]? = some (.task x))
    (hunder : x.pc.isUnderWay = true) : Alone o := by
  obtain rfl := ho.held.tasks i x hx hunder
  refine ⟨ho.waiting, fun hfailed => ?_, fun j r hr => ?_⟩
  · rcases (ho.failed hfailed).2 with heq | ⟨j, heq⟩ <;> exact nomatch heq
  · rw [← Bool.not_eq_true]
    exact fun hrestarting => nomatch ho.held.requests j r hr hrestarting

/-- A cleanup that raises does so with nothing else under way. -/
theorem alone_of_cleanClose {x : Exec ω} {e : Exc} (hx : o.sys.parties[i]? = some (.task x))
    (hclosing : x.pc.isClosing = true) (hclean : CleanClose o (.act i (.raise e))) : Alone o := by
  obtain ⟨hwaiting, hstatus, hrequests⟩ := hclean ⟨x, hx, hclosing⟩
  exact ⟨hwaiting, hstatus, fun j r hr => hrequests _ (List.mem_of_getElem? hr)⟩

theorem underWay_of_failing {pc : Pc ω stage} (h : pc.isFailing = true) : pc.isUnderWay = true := by
  cases pc <;> first | rfl | exact nomatch h

theorem closing_of_not_underWay {pc : Pc ω stage} (hended : pc.isEnded = false)
    (hunder : pc.isUnderWay = false) : pc.isClosing = true := by
  cases pc with
  | closing => rfl
  | ended => exact nomatch hended
  | _ => exact nomatch hunder

theorem RequestPc.Known.congr {pc : RequestPc} (h : pc.Known w last)
    (hstatus : w'.status = w.status) :
    pc.Known w' last := by
  cases pc <;> simp only [RequestPc.Known, hstatus] at h ⊢ <;> exact h

theorem not_ended_of_underWay {pc : Pc ω stage} (h : pc.isUnderWay = true) :
    pc.isEnded = false := by
  cases pc <;> first | rfl | exact nomatch h

/-- The parties after a step of the execution at `i`. -/
theorem Held.task_set {parties : List (Party ω)} {x : Exec ω} {pc : Pc ω x.stage} {h' : Holder}
    (hheld : Held parties h) (hx : parties[i]? = some (.task x)) (hended : x.pc.isEnded = false)
    (hself : pc.isUnderWay = true → h' = .task i)
    (hrequests : ∀ (j : Nat) r, parties[j]? = some (.request r) → r.pc.isRestarting = true →
      h' = .request j) : Held (parties.set i (.task { x with pc := pc })) h' := by
  have hunended : (Party.task x).isUnended = true := by rw [Party.isUnended, hended, Bool.not_false]
  refine ⟨?_, ?_, Held.one_set _ hheld.oneTask hx fun _ => hunended,
    Held.one_set _ hheld.oneRequest hx (by rintro ⟨⟩)⟩
  · intro j y hy hunder
    rcases set_cases hy with ⟨rfl, heq⟩ | ⟨hne, hy⟩
    · obtain rfl := Party.task.inj heq
      exact hself hunder
    · have hy' : (Party.task y).isUnended = true := by
        rw [Party.isUnended, not_ended_of_underWay hunder, Bool.not_false]
      exact absurd (hheld.oneTask j i _ _ hy hx hy' hunended) hne
  · intro j r hr hrestarting
    rcases set_cases hr with ⟨-, heq⟩ | ⟨-, hr⟩
    · cases heq
    · exact hrequests j r hr hrestarting

theorem Informed.task_set {parties : List (Party ω)} {x : Exec ω} {pc : Pc ω x.stage}
    (hheld : Held parties h) (hx : parties[i]? = some (.task x)) (hended : x.pc.isEnded = false)
    (hself : pc.isEnded = false → Exec.Known w' { x with pc := pc })
    (hrequests : ∀ (j : Nat) r, parties[j]? = some (.request r) → r.pc.isRestarting = true →
      FailedLog w' last ∧ r.pc.Known w' last) :
    Informed w' last (parties.set i (.task { x with pc := pc })) := by
  have hunended : (Party.task x).isUnended = true := by rw [Party.isUnended, hended, Bool.not_false]
  refine ⟨?_, ?_⟩
  · intro j y hy hy'
    rcases set_cases hy with ⟨rfl, heq⟩ | ⟨hne, hy⟩
    · obtain rfl := Party.task.inj heq
      exact hself hy'
    · have hy'' : (Party.task y).isUnended = true := by rw [Party.isUnended, hy', Bool.not_false]
      exact absurd (hheld.oneTask j i _ _ hy hx hy'' hunended) hne
  · intro j r hr hrestarting
    rcases set_cases hr with ⟨-, heq⟩ | ⟨-, hr⟩
    · cases heq
    · exact hrequests j r hr hrestarting

/-- A step that sends nothing leaves what waits as it was. -/
theorem waiting_same (waiting : List Message) (hsent : w'.sent = w.sent) :
    waiting ++ w'.sent.drop w.sent.length = waiting := by
  rw [hsent, List.drop_length, List.append_nil]

/-- **What an execution sends is then all there is**: a message of a stage the log is ready for. -/
theorem sent_inv {x : Exec ω} {w : World ω} {pc : Pc ω x.stage} {m : Message}
    (ho : o.Inv h) (hx : o.sys.parties[i]? = some (.task x)) (hended : x.pc.isEnded = false)
    (halone : Alone o) (hdoc : w.doc.isSome = true) (log : SameLog o.sys.shared w)
    (hsent : w.sent = o.sys.shared.sent ++ [m]) (hover : pc.isUnderWay = false)
    (hshape : Shape w m.stage) (hknown : pc.isEnded = false → Exec.Known w { x with pc := pc }) :
    Tracked.Inv ⟨⟨w, o.sys.parties.set i (.task { x with pc := pc })⟩,
      o.waiting ++ w.sent.drop o.sys.shared.sent.length, o.last⟩ (.message m) := by
  have hwaiting : o.waiting ++ w.sent.drop o.sys.shared.sent.length = [m] := by
    rw [hsent, List.drop_left, halone.waiting, List.nil_append]
  refine ⟨hdoc, hwaiting, ho.held.task_set hx hended ?_ ?_,
    fun hfailed => absurd (log.status ▸ hfailed) halone.status, ?_,
    .task_set ho.held hx hended hknown ?_⟩
  · intro hunder
    exact absurd hunder (by rw [hover]; decide)
  · intro j r hr hrestarting
    exact absurd (halone.requests j r hr) (by rw [hrestarting]; decide)
  · intro m' heq
    rw [← Holder.message.inj heq]
    exact hshape
  · intro j r hr hrestarting
    exact absurd (halone.requests j r hr) (by rw [hrestarting]; decide)

/-- **A step of an execution keeps the invariant.** -/
theorem task_inv {c : Choice ω} {x : Exec ω} {w : World ω} {pc : Pc ω x.stage}
    (ho : o.Inv h) (hx : o.sys.parties[i]? = some (.task x)) (hended : x.pc.isEnded = false)
    (hclean : CleanClose o (.act i c)) (hmove : TaskMove o.sys.shared x.pc c w pc)
    (hdoc : w.doc.isSome = true) (hfails : x.pc.isFailing = true → c = .go → last = some x.stage)
    (hcalm : (c = .go → x.pc.isFailing = false) → last = o.last) :
    ∃ h', Tracked.Inv ⟨⟨w, o.sys.parties.set i (.task { x with pc := pc })⟩,
      o.waiting ++ w.sent.drop o.sys.shared.sent.length, last⟩ h' := by
  obtain ⟨hshape, hnext⟩ := ho.informed.tasks i x hx hended
  -- where nothing else is under way, no request holds the invariant up
  have hnone : Alone o → ∀ {P : Nat → Request → Prop} (j : Nat) r,
      o.sys.parties[j]? = some (.request r) → r.pc.isRestarting = true → P j r := by
    intro halone P j r hr hrestarting
    exact absurd (halone.requests j r hr) (by rw [hrestarting]; decide)
  cases hmove with
  | claim at_ status row sent =>
    have halone := ho.alone hx (by rw [at_]; rfl)
    obtain rfl := hcalm fun _ => by rw [at_]; rfl
    refine ⟨.task i, hdoc, (waiting_same _ sent).trans halone.waiting,
      ho.held.task_set hx hended (fun _ => rfl) (hnone halone), ?_, nofun,
      .task_set ho.held hx hended (fun _ => ⟨hshape.marks row, nofun⟩) (hnone halone)⟩
    intro hfailed
    rw [status] at hfailed
    cases hs : x.stage <;> rw [hs] at hfailed <;> exact nomatch hfailed
  | succeed under calm status row sent next =>
    have halone := ho.alone hx under
    obtain rfl := hcalm fun _ => calm
    have hnot : w.status ≠ some .failed := by
      rw [status]
      cases x.stage <;> decide
    have hknown : ∀ next, pc = .enqueueing next →
        next.index = x.stage.index + 1 ∧ w.jobStatus x.stage = some .succeeded := by
      rintro n rfl
      rcases next with heq | ⟨next, heq, hindex⟩
      · exact nomatch heq
      · obtain rfl := Pc.enqueueing.inj heq
        exact ⟨hindex, row.row⟩
    exact ⟨.task i, hdoc, (waiting_same _ sent).trans halone.waiting,
      ho.held.task_set hx hended (fun _ => rfl) (hnone halone), fun hfailed => absurd hfailed hnot,
      nofun, .task_set ho.held hx hended (fun _ => ⟨hshape.marks row, hknown⟩) (hnone halone)⟩
  | fail failing go status row sent done =>
    have halone := ho.alone hx (underWay_of_failing failing)
    obtain rfl := hfails failing go
    have hshape' : Shape w x.stage := hshape.marks row
    have hknown : ∀ next, pc = .enqueueing next →
        next.index = x.stage.index + 1 ∧ w.jobStatus x.stage = some .succeeded := by
      rintro n rfl
      exact nomatch done
    exact ⟨.none, hdoc, (waiting_same _ sent).trans halone.waiting,
      ho.held.task_set hx hended (fun hunder' => absurd hunder' (by rw [done]; decide))
        (hnone halone), fun _ => ⟨⟨row.row, hshape'⟩, .inl rfl⟩, nofun,
      .task_set ho.held hx hended (fun _ => ⟨hshape', hknown⟩) (hnone halone)⟩
  | send next at_ log sent =>
    have halone := ho.alone hx (by rw [at_]; rfl)
    obtain rfl := hcalm fun _ => by rw [at_]; rfl
    obtain ⟨hindex, hrow⟩ := hnext next at_
    exact ⟨.message { stage := next }, sent_inv ho hx hended halone hdoc log sent rfl
      ((hshape.next hindex hrow).congr log.jobs) fun _ => ⟨hshape.congr log.jobs, nofun⟩⟩
  | again m same raised calm log sent done =>
    have halone : Alone o := by
      cases hunder : x.pc.isUnderWay with
      | true => exact ho.alone hx hunder
      | false =>
        have hclosing := closing_of_not_underWay hended hunder
        obtain ⟨e, rfl⟩ := raised hclosing
        exact alone_of_cleanClose hx hclosing hclean
    obtain rfl := hcalm calm
    have hover : pc.isUnderWay = false := by
      rw [← Bool.not_eq_true]
      exact fun hunder => absurd done (by rw [not_ended_of_underWay hunder]; decide)
    refine ⟨.message m, sent_inv ho hx hended halone hdoc log sent hover ?_ ?_⟩
    · rw [same]
      exact hshape.congr log.jobs
    · intro hnot
      exact absurd done (by rw [hnot]; decide)
  | stay under calm log sent quiet =>
    obtain rfl := hcalm calm
    have hstatus := log.status
    have hself : pc.isEnded = false → Exec.Known w { x with pc := pc } := by
      intro _
      refine ⟨hshape.congr log.jobs, ?_⟩
      rintro n (rfl : pc = .enqueueing n)
      exact nomatch quiet
    cases hpc : pc.isUnderWay with
    | true =>
      have halone : Alone o := by
        rcases under hpc with hunder | ⟨hclosing, e, rfl⟩
        · exact ho.alone hx hunder
        · exact alone_of_cleanClose hx hclosing hclean
      exact ⟨.task i, hdoc, (waiting_same _ sent).trans halone.waiting,
        ho.held.task_set hx hended (fun _ => rfl) (hnone halone),
        fun hfailed => absurd (hstatus ▸ hfailed) halone.status, nofun,
        .task_set ho.held hx hended hself (hnone halone)⟩
    | false =>
      -- the execution is done with; whatever else there is stays
      have hdone : ∀ h' : Holder, pc.isUnderWay = true → h' = .task i :=
        fun _ hunder => absurd hunder (by rw [hpc]; decide)
      have hrequests : ∀ (j : Nat) r, o.sys.parties[j]? = some (.request r) →
          r.pc.isRestarting = true → FailedLog w o.last ∧ r.pc.Known w o.last := by
        intro j r hr hrestarting
        obtain ⟨hlog, hpc⟩ := ho.informed.requests j r hr hrestarting
        exact ⟨hlog.congr log.jobs, hpc.congr hstatus⟩
      by_cases heq : h = .task i
      · subst heq
        refine ⟨.none, hdoc, (waiting_same _ sent).trans ho.waiting,
          ho.held.task_set hx hended (hdone _) ?_,
          fun hfailed => ?_, nofun, .task_set ho.held hx hended hself hrequests⟩
        · exact fun j r hr hrestarting => nomatch ho.held.requests j r hr hrestarting
        · rcases (ho.failed (hstatus ▸ hfailed)).2 with heq | ⟨j, heq⟩ <;> exact nomatch heq
      · refine ⟨h, hdoc, (waiting_same _ sent).trans ho.waiting,
          ho.held.task_set hx hended (hdone _) ho.held.requests, fun hfailed => ?_, ?_,
          .task_set ho.held hx hended hself hrequests⟩
        · obtain ⟨hlog, hholder⟩ := ho.failed (hstatus ▸ hfailed)
          exact ⟨hlog.congr log.jobs, hholder⟩
        · exact fun m hm => (ho.shape m hm).congr log.jobs

/-! ## 6. One step of a request -/

theorem unanswered_of_restarting {r : Request} (h : r.pc.isRestarting = true) :
    (Party.request (ω := ω) r).isUnanswered = true := by
  obtain ⟨kind, pc⟩ := r
  cases pc <;> first | rfl | exact nomatch h

/-- The parties after a step of the request at `i`. -/
theorem Held.request_set {parties : List (Party ω)} {r r' : Request} {h' : Holder}
    (hheld : Held parties h) (hr : parties[i]? = some (.request r))
    (hopen : (Party.request (ω := ω) r).isUnanswered = true)
    (hself : r'.pc.isRestarting = true → h' = .request i)
    (htasks : ∀ (j : Nat) (x : Exec ω), parties[j]? = some (.task x) → x.pc.isUnderWay = true →
      h' = .task j) : Held (parties.set i (.request r')) h' := by
  refine ⟨?_, ?_, Held.one_set _ hheld.oneTask hr nofun,
    Held.one_set _ hheld.oneRequest hr fun _ => hopen⟩
  · intro j x hx hunder
    rcases set_cases hx with ⟨-, heq⟩ | ⟨-, hx⟩
    · exact nomatch heq
    · exact htasks j x hx hunder
  · intro j t ht hrestarting
    rcases set_cases ht with ⟨rfl, heq⟩ | ⟨hne, ht⟩
    · obtain rfl := Party.request.inj heq
      exact hself hrestarting
    · exact absurd (hheld.oneRequest j i _ _ ht hr (unanswered_of_restarting hrestarting) hopen) hne

theorem Informed.request_set {parties : List (Party ω)} {r r' : Request} (hheld : Held parties h)
    (hinformed : Informed w last parties) (hjobs : w'.jobs = w.jobs)
    (hr : parties[i]? = some (.request r))
    (hopen : (Party.request (ω := ω) r).isUnanswered = true)
    (hself : r'.pc.isRestarting = true → FailedLog w' last ∧ r'.pc.Known w' last) :
    Informed w' last (parties.set i (.request r')) := by
  refine ⟨?_, ?_⟩
  · intro j x hx hended
    rcases set_cases hx with ⟨-, heq⟩ | ⟨-, hx⟩
    · exact nomatch heq
    · obtain ⟨hshape, hnext⟩ := hinformed.tasks j x hx hended
      refine ⟨hshape.congr hjobs, fun next hpc => ?_⟩
      rw [jobStatus_congr (congrFun hjobs _)]
      exact hnext next hpc
  · intro j t ht hrestarting
    rcases set_cases ht with ⟨rfl, heq⟩ | ⟨hne, ht⟩
    · obtain rfl := Party.request.inj heq
      exact hself hrestarting
    · exact absurd (hheld.oneRequest j i _ _ ht hr (unanswered_of_restarting hrestarting) hopen) hne

/-- **A request answers, or fails, without a message**: nothing holds the place it may have had. -/
theorem request_done {kind : RequestKind} {pc : RequestPc} {answer : Answer} (ho : o.Inv h)
    (hr : o.sys.parties[i]? = some (.request ⟨kind, pc⟩))
    (hopen : (Party.request (ω := ω) ⟨kind, pc⟩).isUnanswered = true) :
    ∃ h', Tracked.Inv ⟨⟨o.sys.shared, o.sys.parties.set i (.request ⟨kind, .answered answer⟩)⟩,
      o.waiting, o.last⟩ h' := by
  have hinformed : Informed o.sys.shared o.last
      (o.sys.parties.set i (.request ⟨kind, .answered answer⟩)) :=
    ho.informed.request_set ho.held rfl hr hopen nofun
  by_cases heq : h = .request i
  · subst heq
    exact ⟨.none, ho.doc, ho.waiting, ho.held.request_set hr hopen nofun
      (fun j x hx hunder => nomatch ho.held.tasks j x hx hunder),
      fun hfailed => ⟨(ho.failed hfailed).1, .inl rfl⟩, nofun, hinformed⟩
  · exact ⟨h, ho.doc, ho.waiting, ho.held.request_set hr hopen nofun ho.held.tasks, ho.failed,
      ho.shape, hinformed⟩

/-- **A step of a request keeps the invariant.** -/
theorem request_inv {kind : RequestKind} {pc pc' : RequestPc} {w : World ω} (ho : o.Inv h)
    (hr : o.sys.parties[i]? = some (.request ⟨kind, pc⟩))
    (hstep : RequestMoves o.sys.shared kind pc w pc' ∨
      (w = o.sys.shared ∧ raiseRequest pc = some pc')) :
    ∃ h', Tracked.Inv ⟨⟨w, o.sys.parties.set i (.request ⟨kind, pc'⟩)⟩,
      o.waiting ++ w.sent.drop o.sys.shared.sent.length, o.last⟩ h' := by
  have hdone : ∀ answer, (Party.request (ω := ω) ⟨kind, pc⟩).isUnanswered = true → ∃ h',
      Tracked.Inv ⟨⟨o.sys.shared, o.sys.parties.set i (.request ⟨kind, .answered answer⟩)⟩,
        o.waiting ++ o.sys.shared.sent.drop o.sys.shared.sent.length, o.last⟩ h' := by
    intro answer hopen
    rw [waiting_same _ rfl]
    exact request_done ho hr hopen
  -- a restart that goes on, from a world in which only the row may have changed
  have hgoes : ∀ {w : World ω} {pc'' : RequestPc}, pc.isRestarting = true →
      w.doc.isSome = true → w.sent = o.sys.shared.sent → w.jobs = o.sys.shared.jobs →
      (FailedLog w o.last → pc''.Known w o.last) → ∃ h',
        Tracked.Inv ⟨⟨w, o.sys.parties.set i (.request ⟨kind, pc''⟩)⟩,
          o.waiting ++ w.sent.drop o.sys.shared.sent.length, o.last⟩ h' := by
    intro w pc'' hrestarting hdoc hsent hjobs hknown
    have hopen := unanswered_of_restarting (ω := ω) (r := ⟨kind, pc⟩) hrestarting
    obtain rfl := ho.held.requests i _ hr hrestarting
    have hlog : FailedLog w o.last := (ho.informed.requests i _ hr hrestarting).1.congr hjobs
    exact ⟨.request i, hdoc, (waiting_same _ hsent).trans ho.waiting,
      ho.held.request_set hr hopen (fun _ => rfl) ho.held.tasks,
      fun _ => ⟨hlog, .inr ⟨i, rfl⟩⟩, (by rintro _ ⟨⟩),
      ho.informed.request_set ho.held hjobs hr hopen fun _ => ⟨hlog, hknown hlog⟩⟩
  obtain ⟨d, hd⟩ := Option.isSome_iff_exists.mp ho.doc
  have hthere : o.sys.shared.doc ≠ none := by simp [hd]
  rcases hstep with hmoves | ⟨rfl, hraise⟩
  · cases hmoves with
    | missing hgone | resetGone hgone | refreshGone hgone | unmarkGone hgone =>
      exact absurd hgone hthere
    | @failed d hd hfailed =>
      -- the document is failed: nothing is under way, and the restart takes hold
      have hstatus : o.sys.shared.status = some .failed := by
        rw [World.status, hd, Option.map_some, hfailed]
      obtain ⟨hlog, hholder⟩ := ho.failed hstatus
      have hwaiting : o.waiting = [] := by
        rw [ho.waiting]
        rcases hholder with rfl | ⟨j, rfl⟩ <;> rfl
      refine ⟨.request i, ho.doc, (waiting_same _ rfl).trans hwaiting,
        ho.held.request_set hr rfl (fun _ => rfl) ?_, fun _ => ⟨hlog, .inr ⟨i, rfl⟩⟩,
        (by rintro _ ⟨⟩),
        ho.informed.request_set ho.held rfl hr rfl fun _ => ⟨hlog, hstatus, hfailed⟩⟩
      intro j x hx hunder
      obtain rfl := ho.held.tasks j x hx hunder
      rcases hholder with heq | ⟨k, heq⟩ <;> cases heq
    | unchanged => exact hdone _ rfl
    | decide =>
      obtain ⟨hstatus, hloaded⟩ := (ho.informed.requests i _ hr rfl).2
      exact hgoes rfl ho.doc rfl rfl fun hlog => ⟨hstatus, hloaded, hlog.resumes⟩
    | @reset loaded stage w hw =>
      obtain ⟨-, hloaded, hstage⟩ := (ho.informed.requests i _ hr rfl).2
      have hne : loaded.status ≠ stage.entryStatus := by
        rw [hloaded]
        cases stage <;> decide
      have hstatus : w.status = some stage.entryStatus := updateDoc_status hne hw
      obtain ⟨d, -, rfl⟩ := updateDoc_world hw
      exact hgoes rfl rfl rfl rfl fun _ => ⟨hstatus, hstage⟩
    | refresh =>
      have hknown := (ho.informed.requests i _ hr rfl).2
      exact hgoes rfl ho.doc rfl rfl fun _ => hknown
    | @send loaded stage =>
      obtain ⟨hlog, hstatus, hstage⟩ := ho.informed.requests i _ hr rfl
      obtain rfl := ho.held.requests i _ hr rfl
      refine ⟨.message { stage := stage }, ho.doc, ?_,
        ho.held.request_set hr rfl (by rintro ⟨⟩)
          (fun j x hx hunder => by cases ho.held.tasks j x hx hunder),
        fun hfailed => ?_, ?_, ho.informed.request_set ho.held rfl hr rfl (by rintro ⟨⟩)⟩
      · rw [List.drop_left, ho.waiting]
        rfl
      · have hentry : some DocStatus.failed = some stage.entryStatus := hfailed.symm.trans hstatus
        cases stage <;> cases hentry
      · intro m heq
        rw [← Holder.message.inj heq]
        exact hstage ▸ hlog.shape.congr rfl
    | unmark hw =>
      obtain ⟨d, -, rfl⟩ := updateDoc_world hw
      have hlog : FailedLog o.sys.shared o.last := (ho.informed.requests i _ hr rfl).1
      obtain rfl := ho.held.requests i _ hr rfl
      exact ⟨.none, rfl, (waiting_same _ rfl).trans ho.waiting,
        ho.held.request_set hr rfl (by rintro ⟨⟩)
          (fun j x hx hunder => by cases ho.held.tasks j x hx hunder),
        fun _ => ⟨hlog.congr rfl, .inl rfl⟩, (by rintro _ ⟨⟩),
        ho.informed.request_set ho.held rfl hr rfl (by rintro ⟨⟩)⟩
  · cases pc with
    | enqueueing loaded stage =>
      obtain rfl := Option.some.inj hraise
      exact hgoes rfl ho.doc rfl rfl fun _ => trivial
    | answered answer => cases hraise
    | _ =>
      obtain rfl := Option.some.inj hraise
      exact hdone _ rfl

/-! ## 7. Runs -/

/-- While the row is there a step of an execution leaves it there. -/
theorem TaskMove.doc {pc pc' : Pc ω stage} {c : Choice ω} (h : TaskMove w pc c w' pc')
    (hdoc : w.doc.isSome = true) : w'.doc.isSome = true := by
  have hstatus : ∀ {status : DocStatus}, w'.status = some status → w'.doc.isSome = true := by
    intro status h
    rw [World.status] at h
    obtain ⟨d, hd, -⟩ := Option.map_eq_some_iff.mp h
    rw [hd]
    rfl
  cases h with
  | claim at_ status row sent => exact hstatus status
  | succeed under calm status row sent next => exact hstatus status
  | fail failing go status row sent done => exact hstatus status
  | send next at_ log sent => rw [log.doc, hdoc]
  | again m same raised calm log sent done => rw [log.doc, hdoc]
  | stay under calm log sent quiet => rw [log.doc, hdoc]

/-- A party that joins is alone in what it has not ended or answered. -/
theorem Held.one_concat {parties : List (Party ω)} {p : Party ω} (f : Party ω → Bool)
    (hone : ∀ (i j : Nat) (p q : Party ω), parties[i]? = some p → parties[j]? = some q →
      f p = true → f q = true → i = j)
    (hnew : f p = true → ∀ q ∈ parties, f q = false) :
    ∀ (j k : Nat) (r t : Party ω), (parties ++ [p])[j]? = some r → (parties ++ [p])[k]? = some t →
      f r = true → f t = true → j = k := by
  have hold : ∀ {j : Nat} {r : Party ω}, f p = true → parties[j]? = some r → f r ≠ true := by
    intro j r hp hj hr
    exact absurd hr (by rw [hnew hp r (List.mem_of_getElem? hj)]; decide)
  intro j k r t hj hk hr ht
  rcases concat_cases hj with ⟨rfl, heq⟩ | hj' <;> rcases concat_cases hk with ⟨rfl, heq'⟩ | hk'
  · rfl
  · exact absurd ht (hold (heq ▸ hr) hk')
  · exact absurd hr (hold (heq' ▸ ht) hj')
  · exact hone j k r t hj' hk' hr ht

/-- The message that waited is delivered: its execution is what is under way. -/
theorem deliver_inv {m : Message} (ho : o.Inv h) (hm : m ∈ o.waiting)
    (hended : ∀ p ∈ o.sys.parties, p.isUnended = false) :
    Tracked.Inv ⟨o.sys.spawn (.task m.exec), o.waiting.erase m, o.last⟩
      (.task o.sys.parties.length) := by
  obtain rfl : h = .message m := by
    rw [ho.waiting] at hm
    cases h with
    | message m' => rw [List.mem_singleton.mp hm]
    | _ => cases hm
  have hover : ∀ {j : Nat} {x : Exec ω}, o.sys.parties[j]? = some (.task x) →
    x.pc.isEnded = true := by
    intro j x hx
    have hended := hended _ (List.mem_of_getElem? hx)
    rwa [Party.isUnended, Bool.not_eq_false'] at hended
  refine ⟨ho.doc, ?_, ⟨?_, ?_, Held.one_concat _ ho.held.oneTask fun _ => hended,
    Held.one_concat _ ho.held.oneRequest (by rintro ⟨⟩)⟩, ?_, by rintro _ ⟨⟩, ⟨?_, ?_⟩⟩
  · simp [ho.waiting, Holder.messages]
  · intro j x hx hunder
    rcases concat_cases hx with ⟨rfl, -⟩ | hx
    · rfl
    · exact absurd (hover hx) (by rw [not_ended_of_underWay hunder]; decide)
  · intro j r hr hrestarting
    rcases concat_cases hr with ⟨-, heq⟩ | hr
    · cases heq
    · cases ho.held.requests j r hr hrestarting
  · intro hfailed
    rcases (ho.failed hfailed).2 with heq | ⟨j, heq⟩ <;> cases heq
  · intro j x hx hunended
    rcases concat_cases hx with ⟨-, heq⟩ | hx
    · obtain rfl := Party.task.inj heq
      exact ⟨ho.shape m rfl, by rintro _ ⟨⟩⟩
    · exact absurd (hover hx) (by rw [hunended]; decide)
  · intro j r hr hrestarting
    rcases concat_cases hr with ⟨-, heq⟩ | hr
    · cases heq
    · exact ho.informed.requests j r hr hrestarting

/-- A request arrives, and has not looked at the document yet. -/
theorem arrive_inv {kind : RequestKind} (ho : o.Inv h)
    (hanswered : ∀ p ∈ o.sys.parties, p.isUnanswered = false) :
    Tracked.Inv ⟨o.sys.spawn (.request { kind := kind, pc := .reading }), o.waiting, o.last⟩ h := by
  refine ⟨ho.doc, ho.waiting, ⟨?_, ?_, Held.one_concat _ ho.held.oneTask nofun,
    Held.one_concat _ ho.held.oneRequest fun _ => hanswered⟩, ho.failed, ho.shape, ⟨?_, ?_⟩⟩
  · intro j x hx hunder
    rcases concat_cases hx with ⟨-, heq⟩ | hx
    · exact nomatch heq
    · exact ho.held.tasks j x hx hunder
  · intro j r hr hrestarting
    rcases concat_cases hr with ⟨-, heq⟩ | hr
    · obtain rfl := Party.request.inj heq
      exact nomatch hrestarting
    · exact ho.held.requests j r hr hrestarting
  · intro j x hx hunended
    rcases concat_cases hx with ⟨-, heq⟩ | hx
    · exact nomatch heq
    · exact ho.informed.tasks j x hx hunended
  · intro j r hr hrestarting
    rcases concat_cases hr with ⟨-, heq⟩ | hr
    · obtain rfl := Party.request.inj heq
      exact nomatch hrestarting
    · exact ho.informed.requests j r hr hrestarting

/-- A change that the row, the log and the messages do not see. -/
theorem Tracked.Inv.world {w : World ω} (ho : o.Inv h) (hdoc : w.doc = o.sys.shared.doc)
    (hjobs : w.jobs = o.sys.shared.jobs) :
    Tracked.Inv ⟨{ o.sys with shared := w }, o.waiting, o.last⟩ h := by
  have hstatus : w.status = o.sys.shared.status := by rw [World.status, hdoc, World.status]
  refine ⟨(congrArg Option.isSome hdoc).trans ho.doc, ho.waiting, ho.held, fun hfailed => ?_,
    fun m hm => (ho.shape m hm).congr hjobs,
      ⟨fun j x hx hended => ?_, fun j r hr hrestarting => ?_⟩⟩
  · obtain ⟨hlog, hholder⟩ := ho.failed (hstatus ▸ hfailed)
    exact ⟨hlog.congr hjobs, hholder⟩
  · obtain ⟨hshape, hnext⟩ := ho.informed.tasks j x hx hended
    refine ⟨hshape.congr hjobs, fun next hpc => ?_⟩
    rw [jobStatus_congr (congrFun hjobs _)]
    exact hnext next hpc
  · obtain ⟨hlog, hpc⟩ := ho.informed.requests j r hr hrestarting
    exact ⟨hlog.congr hjobs, hpc.congr hstatus⟩

/-- **A step keeps the invariant**, or the document is gone. -/
theorem tracked_step {l : Label ω} (ho : o.Inv h) (hone : OneByOne o l) (hclean : CleanClose o l)
    (hstep : o.step A l = some o') : o'.sys.shared.doc = none ∨ ∃ h, o'.Inv h := by
  obtain ⟨s, hs, rfl⟩ := Option.map_eq_some_iff.mp hstep
  cases l with
  | deliver n =>
    obtain ⟨m, hm, rfl⟩ := Option.map_eq_some_iff.mp hs
    have hdelivered : o.sys.delivered (.deliver n) = some m := hm
    have hinv := deliver_inv ho (hone.1 m hm) hone.2
    refine .inr ⟨.task o.sys.parties.length, ?_⟩
    simp only [hdelivered, Par.spawn_shared, List.drop_length, List.append_nil]
    exact hinv
  | request kind =>
    simp only [Sys.step] at hs
    split at hs
    · cases hs
    · obtain rfl := Option.some.inj hs
      have hinv := @arrive_inv _ _ _ kind ho hone
      refine .inr ⟨h, ?_⟩
      simp only [Sys.delivered, Par.spawn_shared, List.drop_length, List.append_nil]
      exact hinv
  | act i c =>
    obtain ⟨p, w, q, hp, hparty, rfl⟩ := Par.act_eq_some.mp hs
    cases p with
    | task x =>
      obtain ⟨⟨w', pc⟩, hpc, heq⟩ := Option.map_eq_some_iff.mp hparty
      obtain ⟨rfl, rfl⟩ := Prod.mk.inj heq
      have hmove := stepPc_move ho.doc hpc
      refine .inr (task_inv ho hp (step_not_ended hpc) hclean hmove (hmove.doc ho.doc) ?_ ?_)
      · rintro hfailing rfl
        simp [Sys.fails, ho.doc, hp, Party.failing?, hfailing]
      · intro hcalm
        cases c with
        | go => simp [Sys.fails, hp, Party.failing?, hcalm rfl]
        | _ => rfl
    | request r =>
      obtain ⟨kind, pc⟩ := r
      cases c with
      | go =>
        obtain ⟨⟨w', pc'⟩, hgo, heq⟩ := Option.map_eq_some_iff.mp hparty
        obtain ⟨rfl, rfl⟩ := Prod.mk.inj heq
        have hfails : o.sys.fails (.act i .go) = none := by simp [Sys.fails, hp, Party.failing?]
        rw [hfails, Option.none_or]
        exact .inr (request_inv ho hp (.inl (goRequest_moves hgo)))
      | raise e =>
        obtain ⟨pc', hraise, heq⟩ := Option.map_eq_some_iff.mp hparty
        obtain ⟨rfl, rfl⟩ := Prod.mk.inj heq
        exact .inr (request_inv ho hp (.inr ⟨rfl, hraise⟩))
      | reply r => cases hparty
      | part size => cases hparty
  | delete =>
    obtain ⟨w, hw, rfl⟩ := Option.map_eq_some_iff.mp hs
    obtain ⟨d, -, rfl⟩ := Option.map_eq_some_iff.mp hw
    exact .inl rfl
  | purge =>
    obtain ⟨w, hw, rfl⟩ := Option.map_eq_some_iff.mp hs
    unfold World.purge at hw
    split at hw
    · obtain rfl := Option.some.inj hw
      refine .inr ⟨h, ?_⟩
      simp only [Sys.delivered, List.drop_length, List.append_nil]
      exact ho.world rfl rfl
    · cases hw

/-- Where the upload leaves off, its restart is under way. -/
theorem upload_inv (u : Upload) : Tracked.Inv (u.tracked (ω := ω)) (.request 0) := by
  have hempty : FailedLog (ω := ω) u.world none := fun _ => rfl
  have hrequest : ∀ {j : Nat} {p : Party ω}, (u.tracked (ω := ω)).sys.parties[j]? = some p →
      j = 0 ∧ p = .request { kind := .upload, pc := .enqueueing u.row .parse } := by
    intro j p hp
    exact (@concat_cases _ [] _ _ _ hp).resolve_right nofun
  refine ⟨rfl, rfl, ⟨?_, ?_, ?_, ?_⟩, nofun, nofun, ⟨?_, ?_⟩⟩
  · intro j x hx
    exact nomatch (hrequest hx).2
  · intro j r hr _
    rw [(hrequest hr).1]
  · intro j k p q hp hq _ _
    rw [(hrequest hp).1, (hrequest hq).1]
  · intro j k p q hp hq _ _
    rw [(hrequest hp).1, (hrequest hq).1]
  · intro j x hx
    exact nomatch (hrequest hx).2
  · intro j r hr _
    obtain rfl := Party.request.inj (hrequest hr).2
    exact ⟨hempty, rfl, rfl⟩

/-- What the invariant says of a failed document and of a restart. -/
theorem Tracked.Inv.resumes (ho : o.Inv h) : o.Resumes := by
  refine ⟨fun hfailed => (ho.failed hfailed).1.resumable, ?_⟩
  intro i kind loaded stage hi _
  obtain ⟨-, hstatus, hstage⟩ := ho.informed.requests i _ hi rfl
  obtain ⟨d, hd, hds⟩ := Option.map_eq_some_iff.mp hstatus
  obtain ⟨w, hclaim⟩ := @claimTx_isSome _ _ stage _ hd (hds ▸ entryStatus_mem stage)
  exact ⟨hstage, by rw [hclaim]; rfl⟩

theorem resumes_of_gone (hdoc : o.sys.shared.doc = none) : o.Resumes :=
  ⟨fun hfailed => absurd hfailed (by simp [World.status, hdoc]), fun _ _ _ _ _ hne =>
    absurd hdoc hne⟩

/-- A document that is gone does not come back. -/
theorem gone_step {l : Label ω} (hstep : o.step A l = some o') (hdoc : o.sys.shared.doc = none) :
    o'.sys.shared.doc = none := by
  obtain ⟨s, hs, rfl⟩ := Option.map_eq_some_iff.mp hstep
  rcases step_storage hs with ⟨-, hnone, -⟩ | ⟨-, -, -, hkept, -⟩ | ⟨-, hstorage⟩
  · exact hnone
  · exact hkept.trans hdoc
  · exact hstorage.gone hdoc

/-! ## 8. The result -/

/-- **A failed document resumes at the stage that failed last.**  From the commit of an upload on,
in every run in which executions do not overlap, every message is delivered once, requests come
one at a time and no soft time limit fires, and in which an execution's cleanup raises only with
nothing else under way. -/
theorem stage_retry (A : Adapters) (u : Upload) (ls : List (Label ω)) (o : Tracked ω)
    (hone : Guarded (Tracked.step A) OneByOne u.tracked ls)
    (hclean : Guarded (Tracked.step A) CleanClose u.tracked ls)
    (hrun : run (Tracked.step A) u.tracked ls = some o) : o.Resumes := by
  have hinv : o.sys.shared.doc = none ∨ ∃ h, o.Inv h := by
    have hpreserved : ∀ (o : Tracked ω) l o', (o.sys.shared.doc = none ∨ ∃ h, o.Inv h) →
        (OneByOne o l ∧ CleanClose o l) → o.step A l = some o' →
        o'.sys.shared.doc = none ∨ ∃ h, o'.Inv h := by
      rintro o l o' (hdoc | ⟨h, ho⟩) ⟨hone, hclean⟩ hstep
      · exact .inl (gone_step hstep hdoc)
      · exact tracked_step ho hone hclean hstep
    exact run_invariant hpreserved (.inr ⟨_, upload_inv u⟩) (hone.and hclean) hrun
  rcases hinv with hdoc | ⟨h, ho⟩
  · exact resumes_of_gone hdoc
  · exact ho.resumes

/-- The parse stage succeeds, the chunk stage fails for good, and a retry is about to send its
message. -/
def chunkFailsRun : List (Label Nat) :=
  [.act 0 .go, .deliver 0] ++ List.replicate 7 (.act 1 .go) ++
  [.deliver 1, .act 2 .go, .act 2 (.raise (.other "x")), .act 2 .go, .request .retry,
    .act 3 .go, .act 3 .go, .act 3 .go, .act 3 .go]

theorem stage_retry_chunkFails :
    ∃ o, run (Tracked.step sampleAdapters) sampleUpload.tracked chunkFailsRun = some o ∧
      o.last = some .chunk ∧ o.Resumes := by
  have hend : (run (Tracked.step sampleAdapters) sampleUpload.tracked chunkFailsRun).map
      Tracked.last = some (some .chunk) := by decide
  obtain ⟨o, ho, hlast⟩ := Option.map_eq_some_iff.mp hend
  exact ⟨o, ho, hlast, stage_retry sampleAdapters sampleUpload _ o (by decide) (by decide) ho⟩

/-- The parse stage has sent the chunk stage's message when its cleanup raises; the chunk stage
claims the document from `failed` and fails, too. -/
def doubleFailureRun : List (Label Nat) :=
  [.act 0 .go, .deliver 0] ++ List.replicate 6 (.act 1 .go) ++
  [.act 1 (.raise (.other "x")), .act 1 .go, .deliver 1, .act 2 .go,
    .act 2 (.raise (.other "x")), .act 2 .go]

/-- **Two rows are failed**, and the document resumes at the first although the second failed
last. -/
theorem not_stage_retry :
    ¬ ∀ (A : Adapters) (u : Upload) (ls : List (Label Nat)) (o : Tracked Nat),
      Guarded (Tracked.step A) OneByOne u.tracked ls →
      run (Tracked.step A) u.tracked ls = some o → o.Resumes := by
  intro h
  have hend : (run (Tracked.step sampleAdapters) sampleUpload.tracked doubleFailureRun).map
      (fun o =>
        (o.sys.shared.status, o.sys.shared.jobStatus .parse, o.sys.shared.jobStatus .chunk)) =
          some (some .failed, some .failed, some .failed) := by decide
  obtain ⟨o, ho, heq⟩ := Option.map_eq_some_iff.mp hend
  simp only [Prod.mk.injEq] at heq
  obtain ⟨hstatus, hparse, hchunk⟩ := heq
  have hone := ((h _ _ _ o (by decide) ho).failed hstatus).one .parse .chunk hparse hchunk
  exact nomatch hone

end AtlasKnowledge.Pipeline
