/-
# What a failed document tells its owner

`documents.error` is written in four places: the stage's own `_fail`, the shell's `_fail`, the
request that cannot reach the broker, and the claim that clears it.  Executions overlap, so a
text may outlive the failure it was written for; but it always has a cause in the run.

* `failed_error`: in every state of every run every text that a document carries is one of
  `Failure`: the parser's own message for this file, the validation error of the normalised form,
  the provider's refusal, or the shell's text for an exception that was raised in the run; and a
  failed document carries one, if each request that writes `failed` writes its text as well;
* `not_always_told`: a request leaves the text out when the row that it has loaded carries it
  already, although the text may have been cleared since.

The texts for a missing object are not among them: a stage that misses its object misses the row
as well, and then its `_fail` does not commit.
-/
import AtlasKnowledge.Pipeline.Content

namespace AtlasKnowledge.Pipeline

open Interleave Transition

variable {ω : Type}

/-! ## 1. The texts -/

/-- The text that the shell's `_fail` writes for an exception. -/
def shellText (stage : Stage) (e : Exc) : String :=
  match e.retryable? with
  | some message => exhaustedText stage message
  | none =>
    match e with
    | .other name => unexpectedText stage name
    | _ => timeoutText stage

/-- The texts a document may carry, each with its cause.  `seen` holds the labels of the run. -/
inductive Upload.Failure (A : Adapters) (u : Upload) (seen : Label ω → Prop) : String → Prop where
  | refused {message : String} (h : A.parse u.mime u.data u.filename = .error message) :
      Failure A u seen message
  | unreadable {raw : Bytes} {message : String} (stored : u.Stored A (Torn seen) raw)
      (h : A.validate raw = .error message) : Failure A u seen ("解析結果格式錯誤:" ++ message)
  | provider {i : Nat} {e : EmbeddingError} (at_ : seen (.act i (.reply (.error e))))
      (h : e.retryable = false) : Failure A u seen e.message
  | providerExhausted {i : Nat} {e : EmbeddingError} (at_ : seen (.act i (.reply (.error e))))
      (h : e.retryable = true) : Failure A u seen (exhaustedText .embed e.message)
  | length {i : Nat} {vectors : List ω} (at_ : seen (.act i (.reply (.ok vectors)))) :
      Failure A u seen (unexpectedText .embed "ValueError")
  | raised {i : Nat} {e : Exc} {stage : Stage} (pc : Pc ω stage) (at_ : seen (.act i (.raise e))) :
      Failure A u seen (shellText stage (wrapOsError pc e))
  | broker {i : Nat} {e : Exc} (at_ : seen (.act i (.raise e))) :
      Failure A u seen enqueueFailedError

/-! ## 2. The invariant -/

section Invariant

variable (A : Adapters) (u : Upload) (seen : Label ω → Prop) (told : Prop)

/-- The row's text has a cause and, in a run that is `told`, a failed row has a text. -/
structure World.Explained (w : World ω) : Prop where
  cause : ∀ d, w.doc = some d → ∀ error, d.error = some error → u.Failure A seen error
  failed : told → ∀ d, w.doc = some d → d.status = .failed → d.error ≠ none

/-- The text that a `_fail` writes next has a cause, or the row is gone. -/
def Pc.Explained (w : World ω) : {stage : Stage} → Pc ω stage → Prop
  | _, .failing error => w.doc = none ∨ u.Failure A seen error
  | _, .marking error => w.doc = none ∨ u.Failure A seen error
  | _, _ => True

/-- A request restarts a row that it has loaded as `failed`; and it marks one only after the
broker's exception. -/
def RequestPc.Explained : RequestPc → Prop
  | .deciding loaded | .resetting loaded _ => loaded.status = .failed
  | .unmarking _ => u.Failure A seen enqueueFailedError
  | _ => True

def Party.Explained (w : World ω) : Party ω → Prop
  | .task x => x.pc.Explained A u seen w
  | .request r => r.pc.Explained A u seen

end Invariant

/-- When the step is a request's that writes `failed`, it writes the text too: the row that it has
loaded carries another one. -/
def WritesText (s : Sys ω) : Label ω → Prop
  | .act i .go => ∀ kind loaded, s.parties[i]? = some (.request ⟨kind, .unmarking loaded⟩) →
      loaded.status ≠ .failed → loaded.error ≠ some enqueueFailedError
  | _ => True

instance (s : Sys ω) : DecidablePred (WritesText s)
  | .act i .go =>
    match h : s.parties[i]? with
    | some (.request ⟨_, .unmarking loaded⟩) =>
      decidable_of_iff (loaded.status ≠ .failed → loaded.error ≠ some enqueueFailedError)
        (by simp [WritesText, h])
    | some (.request ⟨_, .reading⟩) | some (.request ⟨_, .deciding _⟩)
    | some (.request ⟨_, .resetting _ _⟩) | some (.request ⟨_, .refreshing _⟩)
    | some (.request ⟨_, .enqueueing _ _⟩) | some (.request ⟨_, .answered _⟩)
    | some (.task _) | none => .isTrue (by simp [WritesText, h])
  | .act _ (.reply _) | .act _ (.raise _) | .act _ (.part _) | .deliver _ | .request _ | .delete
  | .purge => .isTrue trivial

variable {A : Adapters} {u : Upload} {seen : Label ω → Prop} {told : Prop} {retries : Nat}
  {w w' : World ω}
  {stage : Stage} {pc pc' : Pc ω stage} {c : Choice ω}

/-- A cause stays a cause when the row is gone for good. -/
theorem Party.Explained.keep {p : Party ω} (hgone : w.doc = none → w'.doc = none)
    (h : p.Explained A u seen w) : p.Explained A u seen w' := by
  cases p with
  | request r => exact h
  | task x =>
    obtain ⟨stage, retries, pc⟩ := x
    cases pc with
    | failing error => exact h.imp_left hgone
    | marking error => exact h.imp_left hgone
    | _ => trivial

/-- A step that leaves the row alone. -/
theorem World.Explained.of_same (hw : w.Explained A u seen told) (hdoc : w'.doc = w.doc) :
    w'.Explained A u seen told := by
  constructor
  · rw [hdoc]
    exact hw.cause
  · rw [hdoc]
    exact hw.failed

/-- A step that writes the row. -/
theorem World.Explained.of_doc {d : DocRow} (hdoc : w'.doc = some d)
    (hcause : ∀ error, d.error = some error → u.Failure A seen error)
    (hfailed : told → d.status = .failed → d.error ≠ none) : w'.Explained A u seen told := by
  constructor
  · intro d' hd' error herror
    obtain rfl := Option.some.inj (hdoc.symm.trans hd')
    exact hcause error herror
  · intro htold d' hd' hstatus
    obtain rfl := Option.some.inj (hdoc.symm.trans hd')
    exact hfailed htold hstatus

/-- Attempts run out on an exception that may be retried: its own message, under the stage. -/
theorem shellText_of_retryable {e : Exc} {message : String}
    (hretry : e.retryable? = some message) : shellText stage e = exhaustedText stage message := by
  simp only [shellText, hretry]

/-- The text of the shell's `_fail` is the exception's. -/
theorem runStage_marking {e : Exc} {error : String}
    (h : (runStage stage retries w e).2 = .marking error) : error = shellText stage e := by
  unfold runStage at h
  cases hretry : e.retryable? with
  | some message =>
    rw [shellText_of_retryable hretry]
    simp only [hretry] at h
    split at h
    · exact (Pc.marking.inj h).symm
    · unfold taskRetry at h
      split at h <;> exact absurd h (by simp)
  | none =>
    simp only [hretry] at h
    cases e with
    | other name => exact (Pc.marking.inj h).symm
    | softTimeLimit => exact (Pc.marking.inj h).symm
    | _ => exact absurd hretry (by simp [Exc.retryable?])

/-- An exception has a cause in the run, or the row is gone. -/
theorem Raised.failure {e : Exc} {i : Nat} (h : Raised w pc c e) (hseen : seen (.act i c)) :
    w.doc = none ∨ u.Failure A seen (shellText stage e) := by
  cases h with
  | env e => exact Or.inr (.raised pc hseen)
  | provider e hretry => exact Or.inr (.providerExhausted hseen hretry)
  | length vectors => exact Or.inr (.length hseen)
  | gone hgone => exact Or.inl hgone

theorem runStage_explained {e : Exc} {i : Nat} (h : Raised w pc c e) (hseen : seen (.act i c))
    (hgone : w.doc = none → w'.doc = none) :
    ((runStage stage retries w e).2).Explained A u seen w' := by
  have hspec : SameTables w (runStage stage retries w e).1 ∧
      ((runStage stage retries w e).2.isMarking = true ∨
        ∃ how, (runStage stage retries w e).2 = .ended how) := runStage_spec e
  rcases hspec.2 with hm | ⟨how, hm⟩
  · cases hpc : (runStage stage retries w e).2 with
    | marking error =>
      obtain rfl := runStage_marking hpc
      exact (h.failure hseen).imp_left hgone
    | _ => exact absurd hm (by simp [hpc, Pc.isMarking])
  · rw [hm]
    trivial

/-! ## 3. One step -/

/-- A parse execution that comes to `_fail` has the parser's message, unless the row is gone. -/
theorem readOriginal_explained {doc : DocRow} (hw : w.Content A u (Torn seen))
    (hcolumns : u.Columns doc) :
    (readOriginal A doc w).Explained A u seen w := by
  unfold readOriginal
  split
  · rename_i hmissing
    rcases hw.provides_zero with hgone | hall
    · exact Or.inl hgone
    · have horiginal : w.objects .original = some u.data := hall .parse (Nat.le_refl _)
      exact absurd (horiginal.symm.trans hmissing) (by simp)
  · rename_i data hdata
    obtain rfl := hw.original data hdata
    split
    · rename_i message hrefused
      rw [hcolumns.1, hcolumns.2.1] at hrefused
      exact Or.inr (.refused hrefused)
    · trivial

/-- A chunk execution that comes to `_fail` there could not read the normalised form back, unless
the row is gone. -/
theorem readNormalized_explained {doc : DocRow} (hw : w.Content A u (Torn seen))
    (hlevel : w.Provides A u (Torn seen) Stage.chunk.index) :
    (readNormalized A doc w).Explained A u seen w := by
  unfold readNormalized
  split
  · rename_i hmissing
    rcases hlevel with hgone | hall
    · exact Or.inl hgone
    · obtain ⟨raw, -, hnormalized⟩ := hall .chunk (Nat.le_refl _)
      exact absurd (hnormalized.symm.trans hmissing) (by simp)
  · rename_i raw hraw
    split
    · rename_i message herror
      exact Or.inr (.unreadable (hw.normalized raw hraw) herror)
    · trivial

theorem succeedTx_explained (hw : w.Explained A u seen told) (h : succeedTx stage w = some w') :
    w'.Explained A u seen told := by
  obtain ⟨d, job, hd, rfl⟩ := succeedTx_world h
  refine .of_doc rfl (hw.cause d hd) fun _ hfailed => ?_
  exact absurd hfailed (by cases stage <;> simp [Stage.nextStatus])

theorem failTx_explained {error : String} (herror : w.doc = none ∨ u.Failure A seen error)
    (h : failTx stage error w = some w') : w'.Explained A u seen told := by
  obtain ⟨d, job, hd, rfl⟩ := failTx_world h
  have hcause : u.Failure A seen error := herror.resolve_left (by simp [hd])
  refine .of_doc rfl (fun error' herror' => ?_) fun _ _ => by simp
  obtain rfl := Option.some.inj herror'
  exact hcause

theorem moves_explained {i : Nat} (hseen : seen (.act i c)) (hcontent : w.Content A u (Torn seen))
    (hlevel : w.Provides A u (Torn seen) pc.level) (hcarries : pc.Carries A u (Torn seen))
    (hw : w.Explained A u seen told)
    (hpc : pc.Explained A u seen w) (h : Moves A retries w pc c w' pc') :
    w'.Explained A u seen told ∧ (w.doc = none → w'.doc = none) ∧ pc'.Explained A u seen w' := by
  have hwritten : ∀ {d : DocRow}, w.doc = some d → w.doc = none → w'.doc = none :=
    fun hd hgone => absurd (hd.symm.trans hgone) (by simp)
  cases h with
  | claim h =>
    obtain ⟨d, job, hd, rfl⟩ := claimTx_world h
    refine ⟨.of_doc rfl (by simp) fun _ hfailed => ?_, hwritten hd, trivial⟩
    exact absurd hfailed (by cases stage <;> simp [Stage.claimTo])
  | get _ =>
    refine ⟨hw, id, ?_⟩
    cases stage <;> trivial
  | parse => exact ⟨hw, id, readOriginal_explained hcontent hcarries⟩
  | write => exact ⟨hw.of_same rfl, id, trivial⟩
  | part => exact ⟨hw.of_same rfl, id, trivial⟩
  | load => exact ⟨hw, id, readNormalized_explained hcontent hlevel⟩
  | finishParse h =>
    obtain ⟨d, -, hd, -⟩ := succeedTx_world h
    exact ⟨succeedTx_explained hw h, hwritten hd, trivial⟩
  | @replace drafts _ h =>
    obtain ⟨d, hd, -⟩ := replaceTx_eq_some h
    have hmid : (w.replaceForDocument drafts).Explained A u seen told := hw.of_same rfl
    exact ⟨succeedTx_explained hmid h, hwritten hd, trivial⟩
  | refuse hrefused => exact ⟨hw, id, Or.inr (.provider hseen hrefused)⟩
  | store => exact ⟨hw.of_same rfl, id, trivial⟩
  | finishEmbed h =>
    obtain ⟨d, -, hd, -⟩ := succeedTx_world h
    exact ⟨succeedTx_explained hw h, hwritten hd, trivial⟩
  | fail h =>
    obtain ⟨d, -, hd, -⟩ := failTx_world h
    exact ⟨failTx_explained hpc h, hwritten hd, trivial⟩
  | mark h =>
    obtain ⟨d, -, hd, -⟩ := failTx_world h
    exact ⟨failTx_explained hpc h, hwritten hd, trivial⟩
  | send => exact ⟨hw.of_same rfl, id, trivial⟩
  | handle e raised =>
    have hworld : (runStage stage retries w e).1 = w ∨ ∃ m : Message, m.stage = stage ∧
        (runStage stage retries w e).1 = { w with sent := w.sent ++ [m] } := runStage_world e
    have hdoc : (runStage stage retries w e).1.doc = w.doc := by
      rcases hworld with hsame | ⟨m, -, hsent⟩
      · rw [hsame]
      · rw [hsent]
    exact ⟨hw.of_same hdoc, fun hgone => hdoc.trans hgone,
      runStage_explained raised hseen fun hgone => hdoc.trans hgone⟩
  | _ => exact ⟨hw, id, trivial⟩

/-- A restart takes the row out of `failed`, and leaves its text or clears it. -/
theorem updateDoc_reset {loaded : DocRow} (hw : w.Explained A u seen told)
    (hloaded : loaded.status = .failed)
    (h : w.updateDoc loaded stage.entryStatus none = some w') : w'.Explained A u seen told := by
  obtain ⟨d, hd, rfl⟩ := updateDoc_world h
  have hentry : stage.entryStatus ≠ .failed := by cases stage <;> decide
  refine .of_doc rfl (fun error herror => ?_) fun _ hfailed => ?_
  · dsimp only at herror
    split at herror
    · exact hw.cause d hd error herror
    · exact absurd herror (by simp)
  · simp only [hloaded, hentry.symm, if_false] at hfailed
    exact absurd hfailed hentry

/-- The mark writes the broker's text, unless the loaded row carries it. -/
theorem updateDoc_unmark {loaded : DocRow} (hw : w.Explained A u seen told)
    (hbroker : u.Failure A seen enqueueFailedError)
    (htext : told → loaded.status ≠ .failed → loaded.error ≠ some enqueueFailedError)
    (h : w.updateDoc loaded .failed (some enqueueFailedError) = some w') :
    w'.Explained A u seen told := by
  obtain ⟨d, hd, rfl⟩ := updateDoc_world h
  refine .of_doc rfl (fun error herror => ?_) fun htold hfailed => ?_
  · dsimp only at herror
    split at herror
    · exact hw.cause d hd error herror
    · obtain rfl := Option.some.inj herror
      exact hbroker
  · by_cases hsame : loaded.error = some enqueueFailedError
    · have hloaded : loaded.status = .failed := by
        by_contra hne
        exact htext htold hne hsame
      simp only [hloaded, if_true] at hfailed
      simp only [hsame, if_true]
      exact hw.failed htold d hd hfailed
    · simp [hsame]

theorem requestMoves_explained {kind : RequestKind} {rpc rpc' : RequestPc}
    (hw : w.Explained A u seen told) (hrpc : rpc.Explained A u seen)
    (htext : ∀ loaded, rpc = .unmarking loaded → told → loaded.status ≠ .failed →
      loaded.error ≠ some enqueueFailedError)
    (h : RequestMoves w kind rpc w' rpc') :
    w'.Explained A u seen told ∧ rpc'.Explained A u seen := by
  cases h with
  | failed hd hfailed => exact ⟨hw, hfailed⟩
  | decide => exact ⟨hw, hrpc⟩
  | reset hupdate => exact ⟨updateDoc_reset hw hrpc hupdate, trivial⟩
  | send => exact ⟨hw.of_same rfl, trivial⟩
  | unmark hupdate => exact ⟨updateDoc_unmark hw hrpc (htext _ rfl) hupdate, trivial⟩
  | _ => exact ⟨hw, trivial⟩

/-- The contents are right, every text has a cause, and so has every text that is to be written. -/
structure Sys.Explained (A : Adapters) (u : Upload) (seen : Label ω → Prop) (told : Prop)
    (s : Sys ω) : Prop where
  sound : s.Sound A u (Torn seen)
  texts : s.Holds (World.Explained A u seen told) (Party.Explained A u seen)

variable {s s' : Sys ω} {l : Label ω}

/-- **One step keeps the texts explained.** -/
theorem step_explained (hs : s.Explained A u seen told) (hseen : seen l)
    (htold : told → WritesText s l) (h : s.step A l = some s') :
    s'.Explained A u seen told := by
  refine ⟨step_sound hs.sound (fun hpart => ⟨l, hseen, hpart⟩) h, ?_⟩
  have hw : s.shared.Explained A u seen told := hs.texts.shared
  cases step_moves h with
  | deliver m hm => exact hs.texts.spawn trivial
  | arrive kind => exact hs.texts.spawn trivial
  | task hat _ hmoves =>
    obtain ⟨hlevel, hcarries⟩ := hs.sound.parties _ hat
    obtain ⟨htexts, hgone, hpc⟩ := moves_explained hseen hs.sound.shared hlevel hcarries hw
      (hs.texts.parties _ hat) hmoves
    exact hs.texts.set _ htexts hpc fun r => Party.Explained.keep hgone
  | @request i r w pc hat hplace hmoves =>
    have htext : ∀ loaded, r.pc = .unmarking loaded → told → loaded.status ≠ .failed →
        loaded.error ≠ some enqueueFailedError := fun loaded hpc ht =>
      htold ht r.kind loaded (by rw [hplace, ← hpc])
    obtain ⟨htexts, hpc⟩ := requestMoves_explained hw (hs.texts.parties _ hat) htext hmoves
    exact hs.texts.set _ htexts hpc fun p => Party.Explained.keep hmoves.frame.2.2.2.2.mp
  | @requestRaise i e r rpc hat hraise =>
    refine hs.texts.set _ hw ?_ fun r hr => hr
    show rpc.Explained A u seen
    cases hpc : r.pc with
    | enqueueing loaded stage =>
      obtain rfl := Option.some.inj ((congrArg raiseRequest hpc).symm.trans hraise)
      exact .broker hseen
    | answered answer => exact nomatch (congrArg raiseRequest hpc).symm.trans hraise
    | _ =>
      obtain rfl := Option.some.inj ((congrArg raiseRequest hpc).symm.trans hraise)
      trivial
  | delete hd =>
    refine hs.texts.env ⟨fun d hd => ?_, fun _ d hd => ?_⟩ fun r =>
      Party.Explained.keep fun _ => rfl
    · exact absurd hd (by simp)
    · exact absurd hd (by simp)
  | purge hsent => exact hs.texts.env (hw.of_same rfl) fun r => Party.Explained.keep id

theorem upload_explained (A : Adapters) (u : Upload) (seen : Label ω → Prop) (told : Prop) :
    (u.sys (ω := ω)).Explained A u seen told := by
  refine ⟨upload_sound A u _, .of_doc rfl (by simp [Upload.row]) (by simp [Upload.row]),
    fun p hp => ?_⟩
  obtain rfl := List.mem_singleton.mp hp
  exact trivial

/-! ## 4. Every run -/

theorem run_explained {ls : List (Label ω)}
    (htold : Guarded (Sys.step A) (fun s l => told → WritesText s l) u.sys ls)
    (hrun : run (Sys.step A) u.sys ls = some s) : s.Explained A u (· ∈ ls) told :=
  run_invariant (fun _ _ _ hs hl => step_explained hs hl.1 hl.2) (upload_explained A u _ told)
    ((guarded_of_forall _ fun _ hl => hl).and htold) hrun

/-- The sample's parser refuses the file. -/
def refusingAdapters : Adapters := { sampleAdapters with parse := fun _ _ _ => .error "bad file" }

/-- Upload and a parse execution that ends in `_fail`. -/
def refusedRun : List (Label Nat) :=
  [.act 0 .go, .deliver 0] ++ List.replicate 4 (.act 1 .go)

/-- Three retries meet an upload that the broker refused.  The first one's parse execution
succeeds on a row that the second one has marked; the third one loads that row, and the chunk
execution clears its text before the third one's own mark. -/
def untoldRun : List (Label Nat) :=
  [.act 0 (.raise (.other "x")), .act 0 .go, .request .retry, .request .retry, .request .retry] ++
  List.replicate 2 (.act 2 .go) ++ List.replicate 2 (.act 3 .go) ++
  List.replicate 5 (.act 1 .go) ++ [.deliver 0] ++ List.replicate 4 (.act 4 .go) ++
  [.act 2 .go, .act 2 .go, .act 3 .go, .act 2 (.raise (.other "x")), .act 2 .go, .act 4 .go,
    .act 3 .go, .act 4 .go, .deliver 1, .act 5 .go, .act 3 (.raise (.other "x")), .act 3 .go]

/-- **A failed document may have lost its text.** -/
theorem not_always_told :
    ∃ s d, run (Sys.step sampleAdapters) sampleUpload.sys untoldRun = some s ∧
      s.shared.doc = some d ∧ d.status = .failed ∧ d.error = none := by
  have hend : (run (Sys.step sampleAdapters) sampleUpload.sys untoldRun).map
      (fun s => s.shared.doc.map fun d => (d.status, d.error)) = some (some (.failed, none)) := by
    decide
  obtain ⟨s, hs, hdoc⟩ := Option.map_eq_some_iff.mp hend
  obtain ⟨d, hd, heq⟩ := Option.map_eq_some_iff.mp hdoc
  obtain ⟨hstatus, herror⟩ := Prod.mk.inj heq
  exact ⟨s, d, hs, hd, hstatus, herror⟩

end AtlasKnowledge.Pipeline
