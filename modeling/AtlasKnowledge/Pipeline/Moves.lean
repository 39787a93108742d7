/-
# What a step carries along

`Effect` says which tables a step of an execution writes.  The results on the contents of the
tables also need the data that an execution carries from one effect to the next: the parser's
document, the drafts, the batch and its vectors, the text of an error.  `Moves` lists the steps
with their data, one constructor for each, and `SysMoves` the steps of the system around them.
-/
import AtlasKnowledge.Pipeline.System

namespace AtlasKnowledge.Pipeline

open Interleave Transition

variable {ω : Type}

/-! ## 1. One step of an execution -/

/-- Where an exception comes from: the environment raised it in front of an effect, the provider
answered with a retryable error or with too few or too many vectors, or a transaction met the
deleted row. -/
inductive Raised (w : World ω) : {stage : Stage} → Pc ω stage → Choice ω → Exc → Prop where
  | env {stage : Stage} {pc : Pc ω stage} (e : Exc) : Raised w pc (.raise e) (wrapOsError pc e)
  | provider {batch : List (ChunkRow ω)} (e : EmbeddingError) (h : e.retryable = true) :
      Raised w (.embedding batch) (.reply (.error e)) (.transient e.message)
  | length {batch : List (ChunkRow ω)} (vectors : List ω) :
      Raised w (.embedding batch) (.reply (.ok vectors)) (.other "ValueError")
  | gone {stage : Stage} {pc : Pc ω stage} (h : w.doc = none) :
      Raised w pc .go foreignKeyViolation

/-- The steps of an execution, with what they carry. -/
inductive Moves (A : Adapters) (retries : Nat) (w : World ω) :
    {stage : Stage} → Pc ω stage → Choice ω → World ω → Pc ω stage → Prop where
  | claim {stage : Stage} {w' : World ω} (h : claimTx stage w = some w') :
      Moves A retries w (.start (s := stage)) .go w' .claimed
  | skip {stage : Stage} : Moves A retries w (.start (s := stage)) .go w .closing
  | get {stage : Stage} {doc : DocRow} (h : w.doc = some doc) :
      Moves A retries w (.claimed (s := stage)) .go w (afterGet stage doc)
  | getGone {stage : Stage} : Moves A retries w (.claimed (s := stage)) .go w .closing
  | parse {doc : DocRow} :
      Moves A retries w (.readingOriginal doc) .go w (readOriginal A doc w)
  | write {n : NormalizedDocument} :
      Moves A retries w (.writingNormalized n) .go (w.put .normalized (A.dump n)) .finishingParse
  | part {n : NormalizedDocument} {size : Nat} :
      Moves A retries w (.writingNormalized n) (.part size)
        (w.put .normalized ((A.dump n).take size)) (.writingNormalized n)
  | finishParse {w' : World ω} (h : succeedTx .parse w = some w') :
      Moves A retries w .finishingParse .go w' (.enqueueing .chunk)
  | load {doc : DocRow} :
      Moves A retries w (.readingNormalized doc) .go w (readNormalized A doc w)
  | build {doc : DocRow} {n : NormalizedDocument} :
      Moves A retries w (.readingSource doc n) .go w
        (.replacing (A.buildChunks n ((A.sourceType doc.sourceId).getD "upload")))
  | replace {drafts : Drafts} {w' : World ω} (h : replaceTx drafts w = some w') :
      Moves A retries w (.replacing drafts) .go w' (.enqueueing .embed)
  | drained (h : w.listUnembedded A.batchSize = []) :
      Moves A retries w .batching .go w .finishingEmbed
  | batch (h : w.listUnembedded A.batchSize ≠ []) :
      Moves A retries w .batching .go w (.embedding (w.listUnembedded A.batchSize))
  | answer {batch : List (ChunkRow ω)} {vectors : List ω} (h : vectors.length = batch.length) :
      Moves A retries w (.embedding batch) (.reply (.ok vectors)) w (.storing batch vectors)
  | refuse {batch : List (ChunkRow ω)} {e : EmbeddingError} (h : e.retryable = false) :
      Moves A retries w (.embedding batch) (.reply (.error e)) w (.failing e.message)
  | store {batch : List (ChunkRow ω)} {vectors : List ω} :
      Moves A retries w (.storing batch vectors) .go
        (w.setEmbeddings ((batch.map ChunkRow.id).zip vectors) A.version) .batching
  | finishEmbed {w' : World ω} (h : succeedTx .embed w = some w') :
      Moves A retries w .finishingEmbed .go w' .closing
  | fail {stage : Stage} {error : String} {w' : World ω} (h : failTx stage error w = some w') :
      Moves A retries w (.failing (s := stage) error) .go w' .closing
  | mark {stage : Stage} {error : String} {w' : World ω} (h : failTx stage error w = some w') :
      Moves A retries w (.marking (s := stage) error) .go w' (.ended .marked)
  | markLost {stage : Stage} {error : String} {c : Choice ω} :
      Moves A retries w (.marking (s := stage) error) c w (.ended .markLost)
  | send {stage next : Stage} :
      Moves A retries w (.enqueueing (s := stage) next) .go
        { w with sent := w.sent ++ [{ stage := next }] } .closing
  | close {stage : Stage} : Moves A retries w (.closing (s := stage)) .go w (.ended .returned)
  | handle {stage : Stage} {pc : Pc ω stage} {c : Choice ω} (e : Exc) (raised : Raised w pc c e) :
      Moves A retries w pc c (runStage stage retries w e).1 (runStage stage retries w e).2

variable {A : Adapters} {retries : Nat} {w w' : World ω} {stage : Stage} {pc pc' : Pc ω stage}
  {c : Choice ω}

/-- A transaction that refers to the document commits, or the row is gone. -/
theorem commitOr_moves {tx : Option (World ω)} {next : Pc ω stage}
    (hgone : tx = none → w.doc = none)
    (hcommit : ∀ w', tx = some w' → Moves A retries w pc .go w' next) :
    Moves A retries w pc .go (commitOr stage retries w tx next).1
      (commitOr stage retries w tx next).2 := by
  cases tx with
  | none => exact .handle foreignKeyViolation (.gone (hgone rfl))
  | some w' => exact hcommit w' rfl

theorem goPc_moves (h : goPc A retries w pc = some (w', pc')) :
    Moves A retries w pc .go w' pc' := by
  cases pc with
  | start =>
    obtain h := Option.some.inj h
    split at h
    · rename_i w₁ hclaim
      obtain ⟨rfl, rfl⟩ := Prod.mk.inj h
      exact .claim hclaim
    · obtain ⟨rfl, rfl⟩ := Prod.mk.inj h
      exact .skip
  | claimed =>
    obtain h := Option.some.inj h
    split at h
    · rename_i doc hdoc
      obtain ⟨rfl, rfl⟩ := Prod.mk.inj h
      exact .get hdoc
    · obtain ⟨rfl, rfl⟩ := Prod.mk.inj h
      exact .getGone
  | readingOriginal doc =>
    obtain ⟨rfl, rfl⟩ := Prod.mk.inj (Option.some.inj h)
    exact .parse
  | writingNormalized normalized =>
    obtain ⟨rfl, rfl⟩ := Prod.mk.inj (Option.some.inj h)
    exact .write
  | finishingParse =>
    obtain ⟨rfl, rfl⟩ := Prod.mk.inj (Option.some.inj h)
    exact commitOr_moves succeedTx_eq_none fun _ hw => .finishParse hw
  | readingNormalized doc =>
    obtain ⟨rfl, rfl⟩ := Prod.mk.inj (Option.some.inj h)
    exact .load
  | readingSource doc normalized =>
    obtain ⟨rfl, rfl⟩ := Prod.mk.inj (Option.some.inj h)
    exact .build
  | replacing drafts =>
    obtain ⟨rfl, rfl⟩ := Prod.mk.inj (Option.some.inj h)
    exact commitOr_moves succeedTx_eq_none fun _ hw => .replace hw
  | batching =>
    obtain h := Option.some.inj h
    split at h
    · rename_i hnil
      obtain ⟨rfl, rfl⟩ := Prod.mk.inj h
      exact .drained hnil
    · rename_i b bs hbatch
      obtain ⟨rfl, rfl⟩ := Prod.mk.inj h
      rw [← hbatch]
      exact .batch (by simp [hbatch])
  | embedding batch => exact absurd h (by simp [goPc])
  | storing batch vectors =>
    obtain ⟨rfl, rfl⟩ := Prod.mk.inj (Option.some.inj h)
    exact .store
  | finishingEmbed =>
    obtain ⟨rfl, rfl⟩ := Prod.mk.inj (Option.some.inj h)
    exact commitOr_moves succeedTx_eq_none fun _ hw => .finishEmbed hw
  | failing error =>
    obtain ⟨rfl, rfl⟩ := Prod.mk.inj (Option.some.inj h)
    exact commitOr_moves failTx_eq_none fun _ hw => .fail hw
  | enqueueing next =>
    obtain ⟨rfl, rfl⟩ := Prod.mk.inj (Option.some.inj h)
    exact .send
  | closing =>
    obtain ⟨rfl, rfl⟩ := Prod.mk.inj (Option.some.inj h)
    exact .close
  | marking error =>
    obtain h := Option.some.inj h
    split at h
    · rename_i hfail
      obtain ⟨rfl, rfl⟩ := Prod.mk.inj h
      exact .mark hfail
    · obtain ⟨rfl, rfl⟩ := Prod.mk.inj h
      exact .markLost
  | ended how => exact absurd h (by simp [goPc])

theorem replyPc_moves {r : Except EmbeddingError (List ω)}
    (h : replyPc retries w r pc = some (w', pc')) : Moves A retries w pc (.reply r) w' pc' := by
  cases pc with
  | embedding batch =>
    obtain h := Option.some.inj h
    cases r with
    | ok vectors =>
      simp only at h
      split at h
      · rename_i hlength
        obtain ⟨rfl, rfl⟩ := Prod.mk.inj h
        exact .answer hlength
      · obtain ⟨rfl, rfl⟩ := Prod.mk.inj h
        exact .handle _ (.length vectors)
    | error e =>
      simp only at h
      split at h
      · rename_i hretry
        obtain ⟨rfl, rfl⟩ := Prod.mk.inj h
        exact .handle _ (.provider e hretry)
      · rename_i hretry
        obtain ⟨rfl, rfl⟩ := Prod.mk.inj h
        exact .refuse (by simpa using hretry)
  | _ => exact absurd h (by simp [replyPc])

theorem raisePc_moves {e : Exc} (h : raisePc retries w e pc = some (w', pc')) :
    Moves A retries w pc (.raise e) w' pc' := by
  cases pc with
  | ended how => exact absurd h (by simp [raisePc])
  | marking error =>
    obtain ⟨rfl, rfl⟩ := Prod.mk.inj (Option.some.inj h)
    exact .markLost
  | _ =>
    obtain ⟨rfl, rfl⟩ := Prod.mk.inj (Option.some.inj h)
    exact .handle _ (.env e)

theorem partPc_moves {size : Nat} (h : partPc A w size pc = some (w', pc')) :
    Moves A retries w pc (.part size) w' pc' := by
  cases pc with
  | writingNormalized n =>
    obtain ⟨rfl, rfl⟩ := Prod.mk.inj (Option.some.inj h)
    exact .part
  | _ => exact absurd h (by simp [partPc])

/-- **Every step of an execution is one of these.** -/
theorem stepPc_moves (h : stepPc A retries w pc c = some (w', pc')) :
    Moves A retries w pc c w' pc' := by
  cases c with
  | go => exact goPc_moves h
  | reply r => exact replyPc_moves h
  | raise e => exact raisePc_moves h
  | part size => exact partPc_moves h

/-- What the shell leaves: the message it sends goes to the same stage. -/
theorem runStage_world (e : Exc) :
    (runStage stage retries w e).1 = w ∨
      ∃ m : Message, m.stage = stage ∧
        (runStage stage retries w e).1 = { w with sent := w.sent ++ [m] } := by
  unfold runStage
  split
  · split
    · exact Or.inl rfl
    · unfold taskRetry
      split
      · exact Or.inl rfl
      · exact Or.inr ⟨_, rfl, rfl⟩
  · split <;> exact Or.inl rfl

/-! ## 2. One step of the system -/

/-- The steps of the system. -/
inductive SysMoves (A : Adapters) (s : Sys ω) : Label ω → Sys ω → Prop where
  | deliver {n : Nat} (m : Message) (h : m ∈ s.shared.sent) :
      SysMoves A s (.deliver n) (s.spawn (.task m.exec))
  | arrive (kind : RequestKind) :
      SysMoves A s (.request kind) (s.spawn (.request { kind := kind, pc := .reading }))
  | task {i : Nat} {c : Choice ω} {x : Exec ω} {w : World ω} {pc : Pc ω x.stage}
      (at_ : Party.task x ∈ s.parties) (place : s.parties[i]? = some (.task x))
      (moves : Moves A x.retries s.shared x.pc c w pc) :
      SysMoves A s (.act i c) ⟨w, s.parties.set i (.task { x with pc := pc })⟩
  | request {i : Nat} {r : Request} {w : World ω} {pc : RequestPc}
      (at_ : Party.request r ∈ s.parties) (place : s.parties[i]? = some (.request r))
      (moves : RequestMoves s.shared r.kind r.pc w pc) :
      SysMoves A s (.act i .go) ⟨w, s.parties.set i (.request { r with pc := pc })⟩
  | requestRaise {i : Nat} {e : Exc} {r : Request} {pc : RequestPc}
      (at_ : Party.request r ∈ s.parties) (raised : raiseRequest r.pc = some pc) :
      SysMoves A s (.act i (.raise e))
        ⟨s.shared, s.parties.set i (.request { r with pc := pc })⟩
  | delete {d : DocRow} (h : s.shared.doc = some d) :
      SysMoves A s .delete
        { s with
          shared :=
            { s.shared with
              doc := none, chunks := .empty, jobs := fun _ => none, purgeSent := true } }
  | purge (h : s.shared.purgeSent = true) :
      SysMoves A s .purge { s with shared := { s.shared with objects := fun _ => none } }

/-- **Every step of the system is one of these.** -/
theorem step_moves {s s' : Sys ω} {l : Label ω} (h : s.step A l = some s') :
    SysMoves A s l s' := by
  cases l with
  | deliver n =>
    obtain ⟨m, hm, rfl⟩ := Option.map_eq_some_iff.mp h
    exact .deliver m (List.mem_of_getElem? hm)
  | request kind =>
    simp only [Sys.step] at h
    split at h
    · exact absurd h (by simp)
    · obtain rfl := Option.some.inj h
      exact .arrive kind
  | act i c =>
    obtain ⟨p, w, q, hp, hstep, rfl⟩ := Par.act_eq_some.mp h
    have hmem : p ∈ s.parties := List.mem_of_getElem? hp
    cases p with
    | task x =>
      obtain ⟨⟨w', pc⟩, hpc, heq⟩ := Option.map_eq_some_iff.mp hstep
      obtain ⟨rfl, rfl⟩ := Prod.mk.inj heq
      exact .task hmem hp (stepPc_moves hpc)
    | request r =>
      cases c with
      | go =>
        obtain ⟨⟨w', pc⟩, hpc, heq⟩ := Option.map_eq_some_iff.mp hstep
        obtain ⟨rfl, rfl⟩ := Prod.mk.inj heq
        exact .request hmem hp (goRequest_moves hpc)
      | raise e =>
        obtain ⟨pc, hpc, heq⟩ := Option.map_eq_some_iff.mp hstep
        obtain ⟨rfl, rfl⟩ := Prod.mk.inj heq
        exact .requestRaise hmem hpc
      | reply r => exact absurd hstep (by simp [Party.step])
      | part size => exact absurd hstep (by simp [Party.step])
  | delete =>
    obtain ⟨w, hw, rfl⟩ := Option.map_eq_some_iff.mp h
    obtain ⟨d, hd, rfl⟩ := Option.map_eq_some_iff.mp hw
    exact .delete hd
  | purge =>
    obtain ⟨w, hw, rfl⟩ := Option.map_eq_some_iff.mp h
    unfold World.purge at hw
    split at hw
    · rename_i hsent
      obtain rfl := Option.some.inj hw
      exact .purge hsent
    · exact absurd hw (by simp)

/-! ## 3. What the transactions leave of the world -/

theorem claimTx_world (h : claimTx stage w = some w') : ∃ d job, w.doc = some d ∧
    w' = { w with
      doc := some { d with status := stage.claimTo, error := none }
      jobs := fun s => if s = stage then some job else w.jobs s } := by
  obtain ⟨w₁, hclaim, rfl⟩ := Option.map_eq_some_iff.mp h
  unfold World.claim at hclaim
  split at hclaim
  · rename_i d hd
    split at hclaim
    · obtain rfl := Option.some.inj hclaim
      exact ⟨d, _, hd, rfl⟩
    · exact absurd hclaim (by simp)
  · exact absurd hclaim (by simp)

theorem succeedTx_world (h : succeedTx stage w = some w') : ∃ d job, w.doc = some d ∧
    w' = { w with
      doc := some { d with status := stage.nextStatus }
      jobs := fun s => if s = stage then some job else w.jobs s } := by
  unfold succeedTx at h
  split at h
  · rename_i hdoc
    obtain ⟨d, hd⟩ := Option.isSome_iff_exists.mp hdoc
    obtain rfl := Option.some.inj h
    refine ⟨d, ⟨.succeeded, ((w.jobs stage).map JobRow.attempts).getD 1, none⟩, hd, ?_⟩
    simp only [World.setStatus, World.markFinished, World.upsertJob, hd, Option.map_some]
  · exact absurd h (by simp)

theorem failTx_world {error : String} (h : failTx stage error w = some w') :
    ∃ d job, w.doc = some d ∧
      w' = { w with
        doc := some { d with status := .failed, error := some error }
        jobs := fun s => if s = stage then some job else w.jobs s } := by
  unfold failTx at h
  split at h
  · rename_i hdoc
    obtain ⟨d, hd⟩ := Option.isSome_iff_exists.mp hdoc
    obtain rfl := Option.some.inj h
    refine ⟨d, ⟨.failed, ((w.jobs stage).map JobRow.attempts).getD 1, some error⟩, hd, ?_⟩
    simp only [World.setFailed, World.markFinished, World.upsertJob, hd, Option.map_some]
  · exact absurd h (by simp)

end AtlasKnowledge.Pipeline
