/-
# The pipeline as a whole: deliveries, requests and every interleaving

Around the task executions of `Task.lean` stand the requests of the document's owner
(`DocumentService.retry`, the dedup branch of `upload`, `delete`) and the broker.  A state of
the system is the document's world with the executions and requests in progress; a label says
which of them moves, or what arrives.

The broker delivers at least once: any message that was ever sent may be delivered at any later
time, any number of times, so any number of executions of any stage may overlap.
-/
import AtlasKnowledge.Pipeline.Task
import AtlasKnowledge.Lib.Interleave
import AtlasKnowledge.Lib.Transition

namespace AtlasKnowledge.Pipeline

open Interleave Transition

variable {ω : Type}

/-! ## 1. Requests: `_restart_from_failed_stage` and `_enqueue_stage` -/

/-- Who restarts the document: `retry`, the dedup branch of `upload`, or the upload that
created the row and only has its message left to send. -/
inductive RequestKind where
  | retry | reupload | upload
  deriving DecidableEq, Repr

/-- What a request returns: the document, 404, 409 `DocumentNotRetryable`, the existing document
as it is, or an unhandled exception. -/
inductive Answer where
  | accepted | notFound | notRetryable | deduplicated | raised
  deriving DecidableEq, Repr

/-- Where a request stands, with the row as its session last loaded it. -/
inductive RequestPc where
  /-- `get_owned` or `get_by_checksum`, and the check of the status. -/
  | reading
  /-- `first_failed_stage`. -/
  | deciding (loaded : DocRow)
  /-- The entry status of the stage, and its commit. -/
  | resetting (loaded : DocRow) (stage : Stage)
  /-- `session.refresh`. -/
  | refreshing (stage : Stage)
  /-- The message to the broker. -/
  | enqueueing (loaded : DocRow) (stage : Stage)
  /-- The broker raised: the document goes back to `failed`. -/
  | unmarking (loaded : DocRow)
  | answered (answer : Answer)
  deriving DecidableEq, Repr

/-- A call of `retry`, or of `upload` for a document that is there already. -/
structure Request where
  kind : RequestKind
  pc : RequestPc
  deriving DecidableEq, Repr

/-- `_ENQUEUE_FAILED_ERROR`. -/
def enqueueFailedError : String := "解析任務入列失敗,請重試"

/-- What a request answers when the document is not in `failed`. -/
def RequestKind.unchanged : RequestKind → Answer
  | .retry => .notRetryable
  | _ => .deduplicated

/-- The ORM's update of the loaded row by its primary key: no condition on the status, and only
the columns whose value is another than the loaded one. -/
def World.updateDoc (w : World ω) (loaded : DocRow) (status : DocStatus)
    (error : Option String) : Option (World ω) :=
  w.doc.map fun d =>
    { w with
      doc := some { d with
        status := if loaded.status = status then d.status else status
        error := if loaded.error = error then d.error else error } }

/-- The next effect of a request goes through. -/
def goRequest (w : World ω) (kind : RequestKind) : RequestPc → Option (World ω × RequestPc)
  | .reading =>
    some (match w.doc with
      | none => (w, .answered .notFound)
      | some d => if d.status = .failed then (w, .deciding d) else (w, .answered kind.unchanged))
  | .deciding loaded => some (w, .resetting loaded (w.firstFailedStage.getD .parse))
  | .resetting loaded stage =>
    some (match w.updateDoc loaded stage.entryStatus none with
      | some w' => (w', .refreshing stage)
      | none => (w, .answered .raised))
  | .refreshing stage =>
    some (match w.doc with
      | some d => (w, .enqueueing d stage)
      | none => (w, .answered .raised))
  | .enqueueing _ stage =>
    some ({ w with sent := w.sent ++ [{ stage := stage }] }, .answered .accepted)
  | .unmarking loaded =>
    some (match w.updateDoc loaded .failed (some enqueueFailedError) with
      | some w' => (w', .answered .accepted)
      | none => (w, .answered .raised))
  | .answered _ => none

/-- The next effect of a request raises.  Only the broker's exception is handled. -/
def raiseRequest : RequestPc → Option RequestPc
  | .enqueueing loaded _ => some (.unmarking loaded)
  | .answered _ => none
  | _ => some (.answered .raised)

/-! ## 2. Parties and labels -/

/-- An execution of a task: the message it was delivered with, and where it stands. -/
structure Exec (ω : Type) where
  stage : Stage
  retries : Nat
  pc : Pc ω stage

/-- What is under way: an execution of a task, or a request. -/
inductive Party (ω : Type) where
  | task (x : Exec ω)
  | request (r : Request)

/-- One step of a party. -/
def Party.step (A : Adapters) (w : World ω) : Party ω → Choice ω → Option (World ω × Party ω)
  | .task x, c =>
    (stepPc A x.retries w x.pc c).map fun p => (p.1, .task { x with pc := p.2 })
  | .request r, .go => (goRequest w r.kind r.pc).map fun p => (p.1, .request { r with pc := p.2 })
  | .request r, .raise _ => (raiseRequest r.pc).map fun pc => (w, .request { r with pc := pc })
  | .request _, .reply _ => none
  | .request _, .part _ => none

/-- An execution, not a request. -/
def Party.isTask : Party ω → Bool
  | .task _ => true
  | .request _ => false

def Party.isFinishingEmbed : Party ω → Bool
  | .task x => x.pc.isFinishingEmbed
  | .request _ => false

/-- The drafts a party commits next. -/
def Party.drafts? : Party ω → Option Drafts
  | .task x => x.pc.drafts?
  | .request _ => none

/-- An execution that holds its claim. -/
def Party.holdsClaim : Party ω → Bool
  | .task x => x.pc.holdsClaim
  | .request _ => false

/-- When this exception is raised in the party, the shell calls `_fail`. -/
def Party.failsOn (e : Exc) : Party ω → Bool
  | .task x => !x.pc.isMarking && !x.pc.isEnded && e.marks x.stage x.retries
  | .request _ => false

/-- The execution a delivered message starts. -/
def Message.exec (m : Message) : Exec ω := { stage := m.stage, retries := m.retries, pc := .start }

/-- What happens next in the system. -/
inductive Label (ω : Type) where
  /-- The broker delivers the message at this position of `sent`. -/
  | deliver (n : Nat)
  /-- A retry request or a re-upload of the same bytes arrives. -/
  | request (kind : RequestKind)
  /-- The party at this position takes a step. -/
  | act (i : Nat) (c : Choice ω)
  /-- `DocumentService.delete`: the row goes, and with it, by the cascade, chunks and jobs. -/
  | delete
  /-- `purge_document` removes the objects below the prefix. -/
  | purge

/-- The stored state, and what is under way. -/
abbrev Sys (ω : Type) := Par (World ω) (Party ω)

/-- The commit of `DocumentService.delete`, and the purge message that follows it. -/
def World.delete (w : World ω) : Option (World ω) :=
  w.doc.map fun _ =>
    { w with doc := none, chunks := .empty, jobs := fun _ => none, purgeSent := true }

/-- `delete_prefix`. -/
def World.purge (w : World ω) : Option (World ω) :=
  if w.purgeSent then some { w with objects := fun _ => none } else none

/-- One step of the system. -/
def Sys.step (A : Adapters) (s : Sys ω) : Label ω → Option (Sys ω)
  | .deliver n => s.shared.sent[n]?.map fun m => s.spawn (.task m.exec)
  | .request kind =>
    if kind = .upload then none else some (s.spawn (.request { kind := kind, pc := .reading }))
  | .act i c => s.act (Party.step A) i c
  | .delete => s.shared.delete.map fun w => { s with shared := w }
  | .purge => s.shared.purge.map fun w => { s with shared := w }

/-! ## 3. The start -/

/-- What an accepted upload leaves: its file and the columns of the row. -/
structure Upload where
  data : Bytes
  mime : String
  filename : String
  sourceId : Id

/-- The row that `create` returns. -/
def Upload.row (u : Upload) : DocRow :=
  { status := .pending, mime := u.mime, filename := u.filename, sourceId := u.sourceId }

/-- The world right after the commit of `upload`. -/
def Upload.world (u : Upload) : World ω where
  doc := some u.row
  chunks := .empty
  jobs := fun _ => none
  objects := fun k => if k = .original then some u.data else none
  sent := []
  purgeSent := false
  nextId := 0

/-- The system right after the commit of `upload`, whose first message is still to be sent. -/
def Upload.sys (u : Upload) : Sys ω where
  shared := u.world
  parties := [.request { kind := .upload, pc := .enqueueing u.row .parse }]

/-! ## 4. What one step of the system can do -/

variable {A : Adapters} {s s' : Sys ω} {l : Label ω}

/-- What a step of a request does: it only reads, it writes the row, or it sends its message. -/
inductive RequestMoves (w : World ω) : RequestKind → RequestPc → World ω → RequestPc → Prop where
  | missing {kind : RequestKind} (h : w.doc = none) :
      RequestMoves w kind .reading w (.answered .notFound)
  | failed {kind : RequestKind} {d : DocRow} (h : w.doc = some d) (failed : d.status = .failed) :
      RequestMoves w kind .reading w (.deciding d)
  | unchanged {kind : RequestKind} {d : DocRow} (h : w.doc = some d) (other : d.status ≠ .failed) :
      RequestMoves w kind .reading w (.answered kind.unchanged)
  | decide {kind : RequestKind} {loaded : DocRow} :
      RequestMoves w kind (.deciding loaded) w
        (.resetting loaded (w.firstFailedStage.getD .parse))
  | reset {kind : RequestKind} {loaded : DocRow} {stage : Stage} {w' : World ω}
      (h : w.updateDoc loaded stage.entryStatus none = some w') :
      RequestMoves w kind (.resetting loaded stage) w' (.refreshing stage)
  | resetGone {kind : RequestKind} {loaded : DocRow} {stage : Stage} (h : w.doc = none) :
      RequestMoves w kind (.resetting loaded stage) w (.answered .raised)
  | refresh {kind : RequestKind} {stage : Stage} {d : DocRow} (h : w.doc = some d) :
      RequestMoves w kind (.refreshing stage) w (.enqueueing d stage)
  | refreshGone {kind : RequestKind} {stage : Stage} (h : w.doc = none) :
      RequestMoves w kind (.refreshing stage) w (.answered .raised)
  | send {kind : RequestKind} {loaded : DocRow} {stage : Stage} :
      RequestMoves w kind (.enqueueing loaded stage)
        { w with sent := w.sent ++ [{ stage := stage }] } (.answered .accepted)
  | unmark {kind : RequestKind} {loaded : DocRow} {w' : World ω}
      (h : w.updateDoc loaded .failed (some enqueueFailedError) = some w') :
      RequestMoves w kind (.unmarking loaded) w' (.answered .accepted)
  | unmarkGone {kind : RequestKind} {loaded : DocRow} (h : w.doc = none) :
      RequestMoves w kind (.unmarking loaded) w (.answered .raised)

/-- **Every step of a request is one of these.** -/
theorem goRequest_moves {w w' : World ω} {kind : RequestKind} {pc pc' : RequestPc}
    (h : goRequest w kind pc = some (w', pc')) : RequestMoves w kind pc w' pc' := by
  cases pc with
  | reading =>
    obtain h := Option.some.inj h
    split at h
    · rename_i hdoc
      obtain ⟨rfl, rfl⟩ := Prod.mk.inj h
      exact .missing hdoc
    · rename_i d hdoc
      split at h <;> rename_i hstatus <;> obtain ⟨rfl, rfl⟩ := Prod.mk.inj h
      · exact .failed hdoc hstatus
      · exact .unchanged hdoc hstatus
  | deciding loaded =>
    obtain ⟨rfl, rfl⟩ := Prod.mk.inj (Option.some.inj h)
    exact .decide
  | resetting loaded stage =>
    obtain h := Option.some.inj h
    split at h
    · rename_i w₁ hw
      obtain ⟨rfl, rfl⟩ := Prod.mk.inj h
      exact .reset hw
    · rename_i hw
      obtain ⟨rfl, rfl⟩ := Prod.mk.inj h
      exact .resetGone (Option.map_eq_none_iff.mp hw)
  | refreshing stage =>
    obtain h := Option.some.inj h
    split at h <;> rename_i hdoc <;> obtain ⟨rfl, rfl⟩ := Prod.mk.inj h
    · exact .refresh hdoc
    · exact .refreshGone hdoc
  | enqueueing loaded stage =>
    obtain ⟨rfl, rfl⟩ := Prod.mk.inj (Option.some.inj h)
    exact .send
  | unmarking loaded =>
    obtain h := Option.some.inj h
    split at h
    · rename_i w₁ hw
      obtain ⟨rfl, rfl⟩ := Prod.mk.inj h
      exact .unmark hw
    · rename_i hw
      obtain ⟨rfl, rfl⟩ := Prod.mk.inj h
      exact .unmarkGone (Option.map_eq_none_iff.mp hw)
  | answered answer => exact absurd h (by simp [goRequest])

/-- A request's update writes the two columns of the row, and nothing else. -/
theorem updateDoc_world {w w' : World ω} {loaded : DocRow} {status : DocStatus}
    {error : Option String} (h : w.updateDoc loaded status error = some w') :
    ∃ d, w.doc = some d ∧ w' = { w with
      doc := some { d with
        status := if loaded.status = status then d.status else status
        error := if loaded.error = error then d.error else error } } := by
  obtain ⟨d, hd, rfl⟩ := Option.map_eq_some_iff.mp h
  exact ⟨d, hd, rfl⟩

/-- Where a request writes the status, it is the one it meant to write. -/
theorem updateDoc_status {w w' : World ω} {loaded : DocRow} {status : DocStatus}
    {error : Option String} (hne : loaded.status ≠ status)
    (h : w.updateDoc loaded status error = some w') : w'.status = some status := by
  obtain ⟨d, -, rfl⟩ := updateDoc_world h
  simp [World.status, hne]

/-- It never writes `ready`. -/
theorem updateDoc_ready {w w' : World ω} {loaded : DocRow} {status : DocStatus}
    {error : Option String} (hne : status ≠ .ready)
    (h : w.updateDoc loaded status error = some w') (hr : w'.status = some .ready) :
    w.status = some .ready := by
  obtain ⟨d, hd, rfl⟩ := updateDoc_world h
  simp only [World.status, Option.map_some, Option.some.injEq] at hr
  rw [World.status, hd, Option.map_some]
  split at hr
  · rw [hr]
  · exact absurd hr hne

/-- A request touches neither the chunks nor the storage. -/
theorem RequestMoves.frame {w w' : World ω} {kind : RequestKind} {pc pc' : RequestPc}
    (h : RequestMoves w kind pc w' pc') :
    w'.chunks = w.chunks ∧ w'.nextId = w.nextId ∧ w'.objects = w.objects ∧
      w'.purgeSent = w.purgeSent ∧ (w.doc = none ↔ w'.doc = none) := by
  cases h with
  | reset hw =>
    obtain ⟨d, hd, rfl⟩ := updateDoc_world hw
    exact ⟨rfl, rfl, rfl, rfl, by simp [hd]⟩
  | unmark hw =>
    obtain ⟨d, hd, rfl⟩ := updateDoc_world hw
    exact ⟨rfl, rfl, rfl, rfl, by simp [hd]⟩
  | _ => exact ⟨rfl, rfl, rfl, rfl, Iff.rfl⟩

/-- A request writes nothing but the status and the text: an entry status, or `failed`. -/
theorem RequestMoves.outside {w w' : World ω} {kind : RequestKind} {pc pc' : RequestPc}
    (h : RequestMoves w kind pc w' pc') :
    w'.doc = w.doc ∨
      ∃ loaded status error, status ≠ .ready ∧ w.updateDoc loaded status error = some w' := by
  cases h with
  | @reset loaded stage _ hw => exact Or.inr ⟨_, _, _, by cases stage <;> decide, hw⟩
  | unmark hw => exact Or.inr ⟨_, _, _, by decide, hw⟩
  | _ => exact Or.inl rfl

/-- What the world may become in a step of the system that no task execution takes. -/
inductive Outside (w : World ω) : World ω → Prop where
  | keep {w' : World ω} (doc : w'.doc = w.doc) (chunks : w'.chunks = w.chunks) : Outside w w'
  | update {w' : World ω} {loaded : DocRow} {status : DocStatus} {error : Option String}
      (h : status ≠ .ready) (hw : w.updateDoc loaded status error = some w')
      (chunks : w'.chunks = w.chunks) : Outside w w'
  | gone {w' : World ω} (doc : w'.doc = none) (chunks : w'.chunks = .empty) : Outside w w'

/-- **What one step of the system can do.**  A task execution takes a step, or the step is one
of the owner, the broker or the purge, which leaves every execution where it is and may add a
party that is no execution past its start. -/
inductive SysStep (A : Adapters) (s : Sys ω) : Label ω → Sys ω → Prop where
  | task {i : Nat} {c : Choice ω} {x : Exec ω} {w : World ω} {pc : Pc ω x.stage}
      (at_ : s.parties[i]? = some (.task x))
      (step : stepPc A x.retries s.shared x.pc c = some (w, pc)) :
      SysStep A s (.act i c) ⟨w, s.parties.set i (.task { x with pc := pc })⟩
  | outside {l : Label ω} {s' : Sys ω} (world : Outside s.shared s'.shared)
      (tasks : ∀ (j : Nat) (x : Exec ω), s'.parties[j]? = some (.task x) →
        s.parties[j]? = some (.task x) ∨ x.pc = .start)
      (still : ∀ i c x, l = .act i c → s.parties[i]? ≠ some (.task x)) : SysStep A s l s'

theorem step_cases (h : s.step A l = some s') : SysStep A s l s' := by
  cases l with
  | deliver n =>
    obtain ⟨m, -, rfl⟩ := Option.map_eq_some_iff.mp h
    refine .outside (.keep rfl rfl) ?_ (fun _ _ _ hl => nomatch hl)
    intro j x hx
    rcases concat_cases hx with ⟨-, heq⟩ | hold
    · obtain rfl := Party.task.inj heq
      exact Or.inr rfl
    · exact Or.inl hold
  | request kind =>
    simp only [Sys.step] at h
    split at h
    · exact absurd h (by simp)
    · obtain rfl := Option.some.inj h
      refine .outside (.keep rfl rfl) ?_ (fun _ _ _ hl => nomatch hl)
      intro j x hx
      rcases concat_cases hx with ⟨-, heq⟩ | hold
      · exact absurd heq (by simp)
      · exact Or.inl hold
  | act i c =>
    obtain ⟨p, w, q, hp, hstep, rfl⟩ := Par.act_eq_some.mp h
    cases p with
    | task x =>
      obtain ⟨⟨w', pc⟩, hpc, heq⟩ := Option.map_eq_some_iff.mp hstep
      obtain ⟨rfl, rfl⟩ := Prod.mk.inj heq
      exact .task hp hpc
    | request r =>
      have hset : ∀ (r' : Request) (j : Nat) (x : Exec ω),
          (s.parties.set i (.request r'))[j]? = some (.task x) →
            s.parties[j]? = some (.task x) ∨ x.pc = .start := by
        intro r' j x hx
        rcases set_cases hx with ⟨-, heq⟩ | ⟨-, hold⟩
        · exact absurd heq (by simp)
        · exact Or.inl hold
      have hstill : ∀ i' c' x, Label.act (ω := ω) i c = .act i' c' →
          s.parties[i']? ≠ some (.task x) := by
        intro i' c' x hl
        obtain ⟨rfl, rfl⟩ := Label.act.inj hl
        rw [hp]
        simp
      cases c with
      | go =>
        obtain ⟨⟨w', pc⟩, hpc, heq⟩ := Option.map_eq_some_iff.mp hstep
        obtain ⟨rfl, rfl⟩ := Prod.mk.inj heq
        have hmoves : RequestMoves s.shared r.kind r.pc w' pc := goRequest_moves hpc
        obtain ⟨hchunks, -⟩ := hmoves.frame
        obtain hdoc | ⟨loaded, status, error, hne, hw⟩ := hmoves.outside
        · exact .outside (.keep hdoc hchunks) (hset _) hstill
        · exact .outside (.update hne hw hchunks) (hset _) hstill
      | raise e =>
        obtain ⟨pc, -, heq⟩ := Option.map_eq_some_iff.mp hstep
        obtain ⟨rfl, rfl⟩ := Prod.mk.inj heq
        exact .outside (.keep rfl rfl) (hset _) hstill
      | reply r => exact absurd hstep (by simp [Party.step])
      | part size => exact absurd hstep (by simp [Party.step])
  | delete =>
    obtain ⟨w, hw, rfl⟩ := Option.map_eq_some_iff.mp h
    obtain ⟨d, -, rfl⟩ := Option.map_eq_some_iff.mp hw
    exact .outside (.gone rfl rfl) (fun _ _ hx => Or.inl hx) (fun _ _ _ hl => nomatch hl)
  | purge =>
    obtain ⟨w, hw, rfl⟩ := Option.map_eq_some_iff.mp h
    unfold World.purge at hw
    split at hw
    · obtain rfl := Option.some.inj hw
      exact .outside (.keep rfl rfl) (fun _ _ hx => Or.inl hx) (fun _ _ _ hl => nomatch hl)
    · exact absurd hw (by simp)

/-- The step of a task execution, as a step of the system. -/
theorem step_task {i : Nat} {c : Choice ω} {x : Exec ω} {w : World ω} {pc : Pc ω x.stage}
    (hx : s.parties[i]? = some (.task x)) (h : stepPc A x.retries s.shared x.pc c = some (w, pc)) :
    s.step A (.act i c) = some ⟨w, s.parties.set i (.task { x with pc := pc })⟩ :=
  Par.act_eq_some.mpr ⟨.task x, w, .task { x with pc := pc }, hx, by simp [Party.step, h], rfl⟩

/-- A step outside the tasks makes no document ready. -/
theorem Outside.status_ready {w w' : World ω} (h : Outside w w') (hr : w'.status = some .ready) :
    w.status = some .ready := by
  cases h with
  | keep doc _ => rwa [World.status, doc] at hr
  | update hne hw _ => exact updateDoc_ready hne hw hr
  | gone doc _ => exact absurd hr (by simp [World.status, doc])

/-- A step outside the tasks puts no unembedded chunk into the table. -/
theorem Outside.allEmbedded {w w' : World ω} (h : Outside w w') (he : w.AllEmbedded) :
    w'.AllEmbedded := by
  cases h with
  | keep _ chunks => rw [World.AllEmbedded, chunks]; exact he
  | update _ _ chunks => rw [World.AllEmbedded, chunks]; exact he
  | gone _ chunks => simp [World.AllEmbedded, chunks, ChunkTable.empty]

/-! ## 5. A small instance -/

/-- A parser, a codec and a chunking strategy that always succeed, with one chunk a document and
batches of one. -/
def sampleAdapters : Adapters where
  parse := fun mime _ _ => .ok { blocks := [], info := { sourceMime := mime } }
  dump := fun _ => []
  validate := fun _ => .ok { blocks := [], info := { sourceMime := "text/plain" } }
  buildChunks := fun _ _ => ⟨[{ seq := 0, text := ['a'], tokens := 1 }], rfl⟩
  sourceType := fun _ => some "upload"
  version := "v1"
  batchSize := 1

def sampleUpload : Upload where
  data := [97]
  mime := "text/plain"
  filename := "a.txt"
  sourceId := 0

/-- Upload, parse, chunk and embed, one after the other and without a fault. -/
def sequentialRun : List (Label Nat) :=
  [.act 0 .go, .deliver 0] ++ List.replicate 7 (.act 1 .go) ++
  [.deliver 1] ++ List.replicate 6 (.act 2 .go) ++
  [.deliver 2, .act 3 .go, .act 3 .go, .act 3 .go, .act 3 (.reply (.ok [7])), .act 3 .go,
    .act 3 .go, .act 3 .go]

end AtlasKnowledge.Pipeline
