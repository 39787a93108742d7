/-
# How the embed stage resumes

Between two executions of the embed stage nothing remembers how far the first one came, except
the rows themselves: each execution asks again for the chunks without an embedding, in order of
their `seq`, a batch at a time, and commits each batch.

A sequence of executions, one at a time, is followed here with a record of its provider calls.
The provider answers each call with one vector for each text or with an `EmbeddingError`,
retryable or not; nothing else goes wrong.

`embed_resumes` is what such a sequence achieves from any state of the document's chunks: every
execution ends, no chunk is paid for twice, each row carries the vector returned for it, and the
document is `ready` after exactly the executions that leave no chunk unembedded.
-/
import AtlasKnowledge.Pipeline.Solo
import AtlasKnowledge.Pipeline.System

namespace AtlasKnowledge.Pipeline

open Transition

variable {ω : Type}

/-! ## 1. Executions one at a time -/

/-- A provider call: the chunks whose texts were sent, and the reply. -/
structure Call (ω : Type) where
  batch : List (ChunkRow ω)
  reply : Except EmbeddingError (List ω)

/-- The current execution of the embed stage, and the calls of all executions so far. -/
structure Resuming (ω : Type) where
  world : World ω
  retries : Nat
  pc : Pc ω .embed
  calls : List (Call ω)

inductive Turn (ω : Type) where
  /-- The current execution takes a step. -/
  | step (c : Choice ω)
  /-- The next execution starts, with its `request.retries`. -/
  | again (retries : Nat)

/-- The call that a step makes. -/
def callsOf : Pc ω .embed → Choice ω → List (Call ω)
  | .embedding batch, .reply r => [⟨batch, r⟩]
  | _, _ => []

def Resuming.step (A : Adapters) (x : Resuming ω) : Turn ω → Option (Resuming ω)
  | .step c => (stepPc A x.retries x.world x.pc c).map fun p =>
      { x with world := p.1, pc := p.2, calls := x.calls ++ callsOf x.pc c }
  | .again retries =>
    if x.pc.isEnded then some { x with retries := retries, pc := .start } else none

/-- The first execution is about to start. -/
def World.resuming (w : World ω) (retries : Nat) : Resuming ω := ⟨w, retries, .start, []⟩

/-- The provider replies with one vector for each text or with an error; every other effect goes
through. -/
def Obliging : Pc ω .embed → Choice ω → Prop
  | .embedding batch, .reply (.ok vectors) => vectors.length = batch.length
  | .embedding _, .reply (.error _) => True
  | .embedding _, _ => False
  | _, .go => True
  | _, _ => False

def Resuming.Obliging (x : Resuming ω) : Turn ω → Prop
  | .step c => Pipeline.Obliging x.pc c
  | .again _ => True

instance (pc : Pc ω .embed) (choice : Choice ω) : Decidable (Obliging pc choice) := by
  unfold Obliging
  split <;> infer_instance

instance (x : Resuming ω) : DecidablePred x.Obliging
  | .step c => inferInstanceAs (Decidable (Pipeline.Obliging x.pc c))
  | .again _ => .isTrue trivial

/-! ## 2. What the calls amount to -/

/-- The chunks of a call, if it succeeded. -/
def Call.embedded (a : Call ω) : List (ChunkRow ω) :=
  match a.reply with
  | .ok _ => a.batch
  | .error _ => []

/-- The chunks of a successful call with the vectors returned for them. -/
def Call.pairs (a : Call ω) : List (ChunkRow ω × ω) :=
  match a.reply with
  | .ok vectors => a.batch.zip vectors
  | .error _ => []

/-- A row with the vector that was returned for it, if there is one. -/
def storeRow (version : String) (ps : List (ChunkRow ω × ω)) (c : ChunkRow ω) : ChunkRow ω :=
  match ps.find? fun p => p.1.id = c.id with
  | some p => { c with embedding := some p.2, embeddingVersion := some version }
  | none => c

variable {version : String} {ps qs : List (ChunkRow ω × ω)} {c : ChunkRow ω}

@[simp] theorem storeRow_id : (storeRow version ps c).id = c.id := by
  unfold storeRow
  split <;> rfl

@[simp] theorem storeRow_nil : storeRow version [] c = c := rfl

theorem storeRow_of_absent (h : ∀ p ∈ ps, p.1.id ≠ c.id) : storeRow version ps c = c := by
  have hnone : ps.find? (fun p => p.1.id = c.id) = none :=
    List.find?_eq_none.mpr fun p hp => by simpa using h p hp
  rw [storeRow, hnone]

/-- A row without an embedding is one for which nothing was returned. -/
theorem storeRow_embedding_none (h : (storeRow version ps c).embedding = none) :
    storeRow version ps c = c ∧ c.embedding = none ∧ ∀ p ∈ ps, p.1.id ≠ c.id := by
  unfold storeRow at h ⊢
  split at h
  · exact nomatch h
  · rename_i hnone
    exact ⟨rfl, h, fun p hp => by simpa using List.find?_eq_none.mp hnone p hp⟩

/-- What is returned later, for other rows, is stored on top. -/
theorem storeRow_append (h : ∀ p ∈ ps, ∀ q ∈ qs, q.1.id ≠ p.1.id) :
    storeRow version (ps ++ qs) c = storeRow version qs (storeRow version ps c) := by
  cases hfind : ps.find? fun p => p.1.id = c.id with
  | none =>
    have hsame : storeRow version ps c = c := by rw [storeRow, hfind]
    rw [hsame, storeRow, storeRow, List.find?_append, hfind, Option.none_or]
  | some p =>
    have hid : p.1.id = c.id := by simpa using List.find?_some hfind
    have hp : p ∈ ps := List.mem_of_find?_eq_some hfind
    have hkeep : storeRow version qs (storeRow version ps c) = storeRow version ps c := by
      refine storeRow_of_absent fun q hq => ?_
      rw [storeRow_id, ← hid]
      exact h p hp q hq
    rw [hkeep, storeRow, storeRow, List.find?_append, hfind, Option.some_or]

/-- **What a batch of updates does to the table.**  Every row gets the vector paired with its
id. -/
theorem foldl_setEmbedding_store (version : String) : ∀ (ps : List (ChunkRow ω × ω))
    (t : ChunkTable ω), (ps.map fun p => p.1.id).Nodup →
      ((ps.map fun p => (p.1.id, p.2)).foldl (fun t v => t.setEmbedding v.1 v.2 version) t).rows
        = t.rows.map (storeRow version ps) := by
  intro ps
  induction ps with
  | nil =>
    intro t _
    exact (List.map_id _).symm
  | cons p ps ih =>
    intro t hnodup
    obtain ⟨hp, hnodup⟩ := List.nodup_cons.mp hnodup
    rw [List.map_cons, List.foldl_cons, ih _ hnodup]
    simp only [ChunkTable.setEmbedding, List.map_map]
    refine List.map_congr_left fun c _ => ?_
    simp only [Function.comp_apply]
    by_cases hid : c.id = p.1.id
    · have hrest : ∀ q ∈ ps, q.1.id ≠ c.id := fun q hq heq =>
        hp (List.mem_map.mpr ⟨q, hq, heq.trans hid⟩)
      have hkeep : storeRow version ps
          { c with embedding := some p.2, embeddingVersion := some version } = _ :=
        storeRow_of_absent hrest
      rw [if_pos hid, hkeep, storeRow, List.find?_cons_of_pos (by simp [hid])]
    · have hid' : ¬ p.1.id = c.id := fun h => hid h.symm
      simp only [hid, if_false]
      rw [storeRow, storeRow, List.find?_cons_of_neg (by simpa using hid')]

/-! ## 3. The order of the cursor -/

variable {w w' : World ω} {n : Nat} {b : ChunkRow ω}

/-- Two rows of a table with one `seq` are one row. -/
theorem eq_of_seq_eq {t : ChunkTable ω} {c c' : ChunkRow ω} (hc : c ∈ t.rows) (hc' : c' ∈ t.rows)
    (hseq : c.seq = c'.seq) : c = c' := List.inj_on_of_nodup_map t.uxDocSeq hc hc' hseq

/-- The unembedded rows in order. -/
theorem sorted_unembedded (w : World ω) :
    ((w.chunks.rows.filter fun c => c.embedding.isNone).insertionSort
      fun a b => a.seq ≤ b.seq).Pairwise fun a b => a.seq ≤ b.seq :=
  List.pairwise_insertionSort _ _

/-- A batch is in strictly increasing order. -/
theorem listUnembedded_sorted : (w.listUnembedded n).Pairwise fun a b => a.seq < b.seq := by
  have hle : (w.listUnembedded n).Pairwise fun a b => a.seq ≤ b.seq :=
    (sorted_unembedded w).sublist (List.take_sublist _ _)
  have hnodup : (w.listUnembedded n).Nodup := by
    have hrows : w.chunks.rows.Nodup := List.Nodup.of_map _ w.chunks.pk
    refine List.Nodup.sublist (List.take_sublist _ _) ?_
    exact (List.perm_insertionSort _ _).nodup_iff.mpr (hrows.filter _)
  refine (hle.and hnodup).imp_of_mem ?_
  rintro a b ha hb ⟨hle, hne⟩
  have hseq : a.seq ≠ b.seq := fun heq =>
    hne (eq_of_seq_eq (mem_listUnembedded ha).1 (mem_listUnembedded hb).1 heq)
  omega

/-- **A batch takes the lowest.**  An unembedded row that is not in the batch comes after it. -/
theorem listUnembedded_lt (hb : b ∈ w.listUnembedded n) (hc : c ∈ w.chunks.rows)
    (hnone : c.embedding = none) (hnot : c ∉ w.listUnembedded n) : b.seq < c.seq := by
  have hmem : c ∈ (w.chunks.rows.filter fun c => c.embedding.isNone).insertionSort
      fun a b => a.seq ≤ b.seq := by
    rw [List.mem_insertionSort, List.mem_filter]
    exact ⟨hc, by simp [hnone]⟩
  have hsorted := sorted_unembedded w
  rw [← List.take_append_drop n ((w.chunks.rows.filter fun c => c.embedding.isNone).insertionSort
    fun a b => a.seq ≤ b.seq)] at hmem hsorted
  rcases List.mem_append.mp hmem with htake | hdrop
  · exact absurd htake hnot
  · have hle : b.seq ≤ c.seq := (List.pairwise_append.mp hsorted).2.2 b hb c hdrop
    have hne : b.seq ≠ c.seq := by
      intro heq
      obtain rfl := eq_of_seq_eq (mem_listUnembedded hb).1 hc heq
      exact hnot hb
    omega

/-! ## 4. What one step of an execution can do -/

variable {A : Adapters} {retries : Nat} {pc pc' : Pc ω .embed} {choice : Choice ω}

/-- The steps of an embed execution to which the provider and the database are obliging.  With
the row of the document gone, a last commit fails and the shell takes over (`stranded`). -/
inductive EmbedStep (A : Adapters) (retries : Nat) (w : World ω) :
    Pc ω .embed → Choice ω → World ω → Pc ω .embed → Prop where
  | claim {w' : World ω} (h : claimTx .embed w = some w') :
      EmbedStep A retries w .start .go w' .claimed
  | refused (h : claimTx .embed w = none) : EmbedStep A retries w .start .go w .closing
  | loaded (h : w.doc ≠ none) : EmbedStep A retries w .claimed .go w .batching
  | gone (h : w.doc = none) : EmbedStep A retries w .claimed .go w .closing
  | drained (h : w.listUnembedded A.batchSize = []) :
      EmbedStep A retries w .batching .go w .finishingEmbed
  | batch (h : w.listUnembedded A.batchSize ≠ []) :
      EmbedStep A retries w .batching .go w (.embedding (w.listUnembedded A.batchSize))
  | replied {batch : List (ChunkRow ω)} {vectors : List ω} (h : vectors.length = batch.length) :
      EmbedStep A retries w (.embedding batch) (.reply (.ok vectors)) w (.storing batch vectors)
  | permanent {batch : List (ChunkRow ω)} {e : EmbeddingError} :
      EmbedStep A retries w (.embedding batch) (.reply (.error e)) w (.failing e.message)
  | transient {batch : List (ChunkRow ω)} {e : EmbeddingError} :
      EmbedStep A retries w (.embedding batch) (.reply (.error e))
        (runStage .embed retries w (.transient e.message)).1
        (runStage .embed retries w (.transient e.message)).2
  | store {batch : List (ChunkRow ω)} {vectors : List ω} :
      EmbedStep A retries w (.storing batch vectors) .go
        (w.setEmbeddings ((batch.map ChunkRow.id).zip vectors) A.version) .batching
  | finish {w' : World ω} (h : succeedTx .embed w = some w') :
      EmbedStep A retries w .finishingEmbed .go w' .closing
  | fail {error : String} {w' : World ω} (h : failTx .embed error w = some w') :
      EmbedStep A retries w (.failing error) .go w' .closing
  | stranded {pc : Pc ω .embed} (hdoc : w.doc = none)
      (hpc : pc = .finishingEmbed ∨ ∃ error, pc = .failing error) :
      EmbedStep A retries w pc .go (runStage .embed retries w foreignKeyViolation).1
        (runStage .embed retries w foreignKeyViolation).2
  | enqueue {next : Stage} {w' : World ω} (h : w'.chunks = w.chunks) :
      EmbedStep A retries w (.enqueueing next) .go w' .closing
  | close : EmbedStep A retries w .closing .go w (.ended .returned)
  | mark {error : String} {w' : World ω} (h : failTx .embed error w = some w') :
      EmbedStep A retries w (.marking error) .go w' (.ended .marked)
  | markLost {error : String} (h : w.doc = none) :
      EmbedStep A retries w (.marking error) .go w (.ended .markLost)

/-- **Every obliging step of an embed execution is one of these**, and until it has ended an
execution has one to take. -/
theorem embedStep_of_obliging (ho : Obliging pc choice)
    (h : stepPc A retries w pc choice = some (w', pc')) :
    EmbedStep A retries w pc choice w' pc' := by
  cases choice with
  | reply r =>
    have h : replyPc retries w r pc = some (w', pc') := h
    cases pc with
    | embedding batch =>
      obtain h := Option.some.inj h
      cases r with
      | ok vectors =>
        have hlen : vectors.length = batch.length := ho
        simp only [hlen, if_true] at h
        obtain ⟨rfl, rfl⟩ := Prod.mk.inj h
        exact .replied hlen
      | error e =>
        dsimp only at h
        split at h
        · obtain ⟨rfl, rfl⟩ := Prod.ext_iff.mp h
          exact .transient
        · obtain ⟨rfl, rfl⟩ := Prod.mk.inj h
          exact .permanent
    | _ => exact absurd h (by simp [replyPc])
  | raise e => cases pc <;> exact ho.elim
  | part size => cases pc <;> exact ho.elim
  | go =>
    have h : goPc A retries w pc = some (w', pc') := h
    cases pc with
    | start =>
      obtain h := Option.some.inj h
      split at h <;> obtain ⟨rfl, rfl⟩ := Prod.mk.inj h
      · exact .claim ‹_›
      · exact .refused ‹_›
    | claimed =>
      obtain h := Option.some.inj h
      split at h <;> obtain ⟨rfl, rfl⟩ := Prod.mk.inj h
      · exact .loaded (by simp [*])
      · exact .gone ‹_›
    | batching =>
      cases hbatch : w.listUnembedded A.batchSize with
      | nil =>
        simp only [goPc, hbatch] at h
        obtain ⟨rfl, rfl⟩ := Prod.mk.inj (Option.some.inj h)
        exact .drained hbatch
      | cons c cs =>
        simp only [goPc, hbatch] at h
        obtain ⟨rfl, rfl⟩ := Prod.mk.inj (Option.some.inj h)
        rw [← hbatch]
        exact .batch (by simp [hbatch])
    | embedding batch => exact ho.elim
    | storing batch vectors =>
      obtain ⟨rfl, rfl⟩ := Prod.mk.inj (Option.some.inj h)
      exact .store
    | finishingEmbed =>
      cases htx : succeedTx .embed w with
      | some w₁ =>
        simp only [goPc, htx, commitOr] at h
        obtain ⟨rfl, rfl⟩ := Prod.mk.inj (Option.some.inj h)
        exact .finish htx
      | none =>
        simp only [goPc, htx, commitOr] at h
        obtain ⟨rfl, rfl⟩ := Prod.ext_iff.mp (Option.some.inj h)
        exact .stranded (succeedTx_eq_none htx) (Or.inl rfl)
    | failing error =>
      cases htx : failTx .embed error w with
      | some w₁ =>
        simp only [goPc, htx, commitOr] at h
        obtain ⟨rfl, rfl⟩ := Prod.mk.inj (Option.some.inj h)
        exact .fail htx
      | none =>
        simp only [goPc, htx, commitOr] at h
        obtain ⟨rfl, rfl⟩ := Prod.ext_iff.mp (Option.some.inj h)
        exact .stranded (failTx_eq_none htx) (Or.inr ⟨error, rfl⟩)
    | enqueueing next =>
      obtain ⟨rfl, rfl⟩ := Prod.mk.inj (Option.some.inj h)
      exact .enqueue rfl
    | closing =>
      obtain ⟨rfl, rfl⟩ := Prod.mk.inj (Option.some.inj h)
      exact .close
    | marking error =>
      cases htx : failTx .embed error w with
      | some w₁ =>
        simp only [goPc, htx] at h
        obtain ⟨rfl, rfl⟩ := Prod.mk.inj (Option.some.inj h)
        exact .mark htx
      | none =>
        simp only [goPc, htx] at h
        obtain ⟨rfl, rfl⟩ := Prod.mk.inj (Option.some.inj h)
        exact .markLost (failTx_eq_none htx)
    | ended how => exact absurd h (by simp [goPc])

/-- An obliging choice always leads on. -/
theorem obliging_steps (A : Adapters) (retries : Nat) (w : World ω) (hend : pc.isEnded = false)
    (ho : Obliging pc choice) : ∃ y, stepPc A retries w pc choice = some y := by
  cases pc with
  | ended how => exact nomatch hend
  | embedding batch =>
    cases choice with
    | reply r => exact ⟨_, rfl⟩
    | go => exact ho.elim
    | raise e => exact ho.elim
    | part size => exact ho.elim
  | _ =>
    cases choice with
    | go => exact ⟨_, rfl⟩
    | reply r => exact ho.elim
    | raise e => exact ho.elim
    | part size => exact ho.elim

theorem callsOf_go (pc : Pc ω .embed) : callsOf pc .go = [] := by cases pc <;> rfl

/-- There is an obliging choice everywhere. -/
theorem exists_obliging (pc : Pc ω .embed) : ∃ choice, Obliging pc choice := by
  cases pc with
  | embedding batch => exact ⟨.reply (.error ⟨.transient, ""⟩), trivial⟩
  | _ => exact ⟨.go, trivial⟩

/-! ## 5. The rows and the calls -/

/-- The batch an execution holds is the one it would read again. -/
def InHand (A : Adapters) (w : World ω) : Pc ω .embed → Prop
  | .embedding batch => batch = w.listUnembedded A.batchSize ∧ batch ≠ []
  | .storing batch vectors => batch = w.listUnembedded A.batchSize ∧ batch ≠ [] ∧
    vectors.length = batch.length
  | _ => True

/-- The call whose vectors are not stored yet. -/
def inFlight : Pc ω .embed → List (Call ω)
  | .storing batch vectors => [⟨batch, .ok vectors⟩]
  | _ => []

/-- What the calls `done` have left: their vectors are in the rows, and every row without an
embedding comes after all of theirs. -/
structure Stored (A : Adapters) (w₀ w : World ω) (done : List (Call ω)) : Prop where
  rows : w.chunks.rows = w₀.chunks.rows.map (storeRow A.version (done.flatMap Call.pairs))
  frontier : ∀ a ∈ done, ∀ c ∈ a.embedded, ∀ d ∈ w.chunks.rows, d.embedding = none →
    c.seq < d.seq

/-- What is true of the calls themselves. -/
structure CallsInv (w₀ : World ω) (calls : List (Call ω)) : Prop where
  lengths : ∀ a ∈ calls, ∀ vectors, a.reply = .ok vectors → vectors.length = a.batch.length
  fresh : ∀ a ∈ calls, ∀ c ∈ a.batch, c ∈ w₀.chunks.rows ∧ c.embedding = none
  sorted : ∀ a ∈ calls, a.batch.Pairwise fun c d => c.seq < d.seq
  ordered : calls.Pairwise fun a b => ∀ c ∈ a.embedded, ∀ d ∈ b.batch, c.seq < d.seq

/-- What holds of the rows and the calls after every step, from the first execution on. -/
structure Resumed (A : Adapters) (w₀ : World ω) (x : Resuming ω) : Prop where
  hand : InHand A x.world x.pc
  calls : CallsInv w₀ x.calls
  stored : ∃ done, x.calls = done ++ inFlight x.pc ∧ Stored A w₀ x.world done

variable {w₀ : World ω} {x x' : Resuming ω} {done calls : List (Call ω)} {a : Call ω}

theorem Call.embedded_subset {c : ChunkRow ω} (h : c ∈ a.embedded) : c ∈ a.batch := by
  unfold Call.embedded at h
  split at h
  · exact h
  · exact absurd h (List.not_mem_nil)

/-- A row without an embedding is a row of the start that no call has paid for. -/
theorem Stored.unembedded (hs : Stored A w₀ w done) {c : ChunkRow ω} (hc : c ∈ w.chunks.rows)
    (hnone : c.embedding = none) :
    c ∈ w₀.chunks.rows ∧ ∀ p ∈ done.flatMap Call.pairs, p.1.id ≠ c.id := by
  rw [hs.rows] at hc
  obtain ⟨c₀, hc₀, rfl⟩ := List.mem_map.mp hc
  obtain ⟨heq, -, hnot⟩ := storeRow_embedding_none hnone
  rw [heq]
  exact ⟨hc₀, hnot⟩

/-- **A call takes only rows that no call before it has paid for**, and they come after. -/
theorem CallsInv.call (hi : CallsInv w₀ done) (hs : Stored A w₀ w done)
    {reply : Except EmbeddingError (List ω)}
    (hlen : ∀ vectors, reply = .ok vectors →
      vectors.length = (w.listUnembedded A.batchSize).length) :
    CallsInv w₀ (done ++ [⟨w.listUnembedded A.batchSize, reply⟩]) := by
  have hlast : ∀ {P : Call ω → Prop}, (∀ a ∈ done, P a) →
      P ⟨w.listUnembedded A.batchSize, reply⟩ →
      ∀ a ∈ done ++ [⟨w.listUnembedded A.batchSize, reply⟩], P a := by
    intro P hdone hnew a ha
    rcases List.mem_append.mp ha with ha | ha
    · exact hdone a ha
    · rw [List.mem_singleton.mp ha]
      exact hnew
  constructor
  · exact hlast hi.lengths hlen
  · refine hlast hi.fresh fun c hc => ?_
    obtain ⟨hrow, hnone⟩ := mem_listUnembedded hc
    exact ⟨(hs.unembedded hrow hnone).1, hnone⟩
  · exact hlast hi.sorted listUnembedded_sorted
  · refine List.pairwise_append.mpr ⟨hi.ordered, List.pairwise_singleton _ _, ?_⟩
    intro a ha b hb c hc d hd
    rw [List.mem_singleton.mp hb] at hd
    obtain ⟨hrow, hnone⟩ := mem_listUnembedded hd
    exact hs.frontier a ha c hc d hrow hnone

/-- **What storing a batch does to the table.**  The batch is one of unembedded rows, with a vector
for each. -/
theorem setEmbeddings_store {batch : List (ChunkRow ω)} {vectors : List ω} (version : String)
    (hbatch : batch = w.listUnembedded n) (hlen : vectors.length = batch.length) :
    (w.setEmbeddings ((batch.map ChunkRow.id).zip vectors) version).chunks.rows
      = w.chunks.rows.map (storeRow version (batch.zip vectors)) := by
  have hfst : (batch.zip vectors).map Prod.fst = batch :=
    List.map_fst_zip (Nat.le_of_eq hlen.symm)
  have hids : (batch.zip vectors).map (fun p => p.1.id) = batch.map ChunkRow.id := by
    conv_rhs => rw [← hfst]
    rw [List.map_map]
    rfl
  have hnodup : ((batch.zip vectors).map fun p => p.1.id).Nodup := by
    rw [hids, hbatch]
    refine List.pairwise_map.mpr (listUnembedded_sorted.imp_of_mem ?_)
    intro c d hc hd hlt heq
    obtain rfl := eq_of_id_eq (mem_listUnembedded hc).1 (mem_listUnembedded hd).1 heq
    exact absurd hlt (Nat.lt_irrefl _)
  have hzip : (batch.map ChunkRow.id).zip vectors
      = (batch.zip vectors).map fun p => (p.1.id, p.2) := by
    rw [List.zip_map_left]
    rfl
  rw [World.setEmbeddings, hzip]
  exact foldl_setEmbedding_store version _ _ hnodup

/-- Every row of the batch is among the pairs. -/
theorem mem_zip_of_mem {batch : List (ChunkRow ω)} {vectors : List ω}
    (hlen : vectors.length = batch.length) {c : ChunkRow ω} (hc : c ∈ batch) :
    ∃ p ∈ batch.zip vectors, p.1 = c := by
  have hfst : (batch.zip vectors).map Prod.fst = batch :=
    List.map_fst_zip (Nat.le_of_eq hlen.symm)
  rw [← hfst] at hc
  exact List.mem_map.mp hc

/-- **Storing the vectors of a call.** -/
theorem Stored.store {batch : List (ChunkRow ω)} {vectors : List ω} (hs : Stored A w₀ w done)
    (hbatch : batch = w.listUnembedded A.batchSize) (hlen : vectors.length = batch.length) :
    Stored A w₀ (w.setEmbeddings ((batch.map ChunkRow.id).zip vectors) A.version)
      (done ++ [⟨batch, .ok vectors⟩]) := by
  have hrow : ∀ c ∈ batch, c ∈ w.chunks.rows ∧ c.embedding = none := by
    intro c hc
    rw [hbatch] at hc
    exact mem_listUnembedded hc
  have hrows := setEmbeddings_store A.version hbatch hlen
  have hpairs : (done ++ [(⟨batch, .ok vectors⟩ : Call ω)]).flatMap Call.pairs
      = done.flatMap Call.pairs ++ batch.zip vectors := by
    simp [Call.pairs]
  constructor
  · rw [hrows, hs.rows, List.map_map, hpairs]
    refine List.map_congr_left fun c _ => ?_
    refine (storeRow_append fun p hp q hq => ?_).symm
    have hq : q.1 ∈ batch := (List.of_mem_zip hq).1
    exact ((hs.unembedded (hrow _ hq).1 (hrow _ hq).2).2 p hp).symm
  · intro a ha c hc d hd hnone
    rw [hrows] at hd
    obtain ⟨d₀, hd₀, rfl⟩ := List.mem_map.mp hd
    obtain ⟨heq, hnone₀, hnot⟩ := storeRow_embedding_none hnone
    rw [heq]
    rcases List.mem_append.mp ha with ha | ha
    · exact hs.frontier a ha c hc d₀ hd₀ hnone₀
    · rw [List.mem_singleton.mp ha] at hc
      have hc : c ∈ w.listUnembedded A.batchSize := hbatch ▸ hc
      refine listUnembedded_lt hc hd₀ hnone₀ fun hmem => ?_
      rw [← hbatch] at hmem
      obtain ⟨p, hp, hpd⟩ := mem_zip_of_mem hlen hmem
      exact hnot p hp (by rw [hpd])

/-- Where the rows stay as they are, so does what is stored in them. -/
theorem Stored.congr (hs : Stored A w₀ w done) (h : w'.chunks = w.chunks) :
    Stored A w₀ w' done := by
  constructor
  · rw [h]
    exact hs.rows
  · rw [h]
    exact hs.frontier

/-- A batch stays in hand until it is stored. -/
theorem step_inHand (hhand : InHand A w pc) (h : EmbedStep A retries w pc choice w' pc') :
    InHand A w' pc' := by
  have hshell : ∀ e, InHand A (runStage .embed retries w e).1 (runStage .embed retries w e).2 := by
    intro e
    obtain ⟨-, hmark | ⟨how, hend⟩⟩ := @runStage_spec ω retries w .embed e
    · generalize (runStage .embed retries w e).2 = pc at hmark ⊢
      cases pc with
      | marking error => exact trivial
      | _ => exact nomatch hmark
    · rw [hend]
      exact trivial
  cases h with
  | batch h => exact ⟨rfl, h⟩
  | replied hlen => exact ⟨hhand.1, hhand.2, hlen⟩
  | transient => exact hshell _
  | stranded _ _ => exact hshell _
  | _ => exact trivial

/-- A failed call stores nothing. -/
theorem Stored.error {batch : List (ChunkRow ω)} {e : EmbeddingError} (hs : Stored A w₀ w done) :
    Stored A w₀ w (done ++ [⟨batch, .error e⟩]) := by
  constructor
  · rw [hs.rows]
    simp [Call.pairs]
  · intro a ha c hc
    rcases List.mem_append.mp ha with ha | ha
    · exact hs.frontier a ha c hc
    · rw [List.mem_singleton.mp ha] at hc
      exact absurd hc List.not_mem_nil

/-- Leaving the stage for the shell keeps everything. -/
theorem resumed_shell {k : Nat} {e : Exc} (hi : CallsInv w₀ calls) (hs : Stored A w₀ w calls) :
    Resumed A w₀ ⟨(runStage .embed k w e).1, retries, (runStage .embed k w e).2, calls⟩ := by
  obtain ⟨htables, hpc⟩ := @runStage_spec ω k w .embed e
  generalize (runStage .embed k w e).2 = pc at hpc
  have hrest : InHand A (runStage .embed k w e).1 pc ∧ inFlight pc = [] := by
    rcases hpc with hmark | ⟨how, rfl⟩
    · cases pc with
      | marking error => exact ⟨trivial, rfl⟩
      | _ => exact nomatch hmark
    · exact ⟨trivial, rfl⟩
  exact ⟨hrest.1, hi, calls, by rw [hrest.2, List.append_nil], hs.congr htables.chunks⟩

/-- **One obliging step keeps the rows and the calls right.** -/
theorem step_resumed (hx : Resumed A w₀ x)
    (h : EmbedStep A x.retries x.world x.pc choice w' pc') :
    Resumed A w₀ ⟨w', x.retries, pc', x.calls ++ callsOf x.pc choice⟩ := by
  obtain ⟨world, retries, pc, calls⟩ := x
  obtain ⟨hhand, hcalls, done, hsplit, hstored⟩ := hx
  dsimp only at h hhand hcalls hsplit hstored ⊢
  -- outside `storing` nothing is in flight
  have hidle : inFlight pc = [] → calls = done := fun h => by rw [hsplit, h, List.append_nil]
  -- a step that makes no call and leaves the rows alone
  have hkeep : ∀ {w' : World ω} {pc' : Pc ω .embed}, inFlight pc = [] → callsOf pc choice = [] →
      w'.chunks = world.chunks → InHand A w' pc' → inFlight pc' = [] →
      Resumed A w₀ ⟨w', retries, pc', calls ++ callsOf pc choice⟩ := by
    intro w' pc' hfrom hnone hchunks hhand' hto
    obtain rfl := hidle hfrom
    rw [hnone, List.append_nil]
    exact ⟨hhand', hcalls, calls, by rw [hto, List.append_nil], hstored.congr hchunks⟩
  cases h with
  | claim h =>
    obtain ⟨d, -, -, -, hchunks, -⟩ := claimTx_eq_some h
    exact hkeep rfl rfl hchunks trivial rfl
  | finish h =>
    obtain ⟨d, -, -, hchunks, -⟩ := succeedTx_eq_some h
    exact hkeep rfl rfl hchunks trivial rfl
  | fail h =>
    obtain ⟨d, -, -, hchunks, -⟩ := failTx_eq_some h
    exact hkeep rfl rfl hchunks trivial rfl
  | mark h =>
    obtain ⟨d, -, -, hchunks, -⟩ := failTx_eq_some h
    exact hkeep rfl rfl hchunks trivial rfl
  | enqueue h => exact hkeep rfl rfl h trivial rfl
  | batch h => exact hkeep rfl rfl rfl ⟨rfl, h⟩ rfl
  | @replied batch vectors hlen =>
    obtain rfl := hidle rfl
    obtain ⟨hbatch, hne⟩ := hhand
    refine ⟨⟨hbatch, hne, hlen⟩, ?_, calls, rfl, hstored⟩
    rw [hbatch]
    exact hcalls.call hstored fun vectors' heq => by
      rw [← Except.ok.inj heq, hlen, hbatch]
  | @permanent batch e =>
    obtain rfl := hidle rfl
    obtain ⟨rfl, -⟩ := hhand
    exact ⟨trivial, hcalls.call hstored nofun, _, (List.append_nil _).symm, hstored.error⟩
  | @transient batch e =>
    obtain rfl := hidle rfl
    obtain ⟨rfl, -⟩ := hhand
    exact resumed_shell (hcalls.call hstored nofun) hstored.error
  | @store batch vectors =>
    obtain ⟨hbatch, -, hlen⟩ := hhand
    subst hsplit
    rw [callsOf_go, List.append_nil]
    exact ⟨trivial, hcalls, _, (List.append_nil _).symm, hstored.store hbatch hlen⟩
  | stranded hdoc hpc =>
    have hfrom : inFlight pc = [] := by rcases hpc with rfl | ⟨error, rfl⟩ <;> rfl
    obtain rfl := hidle hfrom
    rw [callsOf_go, List.append_nil]
    exact resumed_shell hcalls hstored
  | _ => exact hkeep rfl rfl rfl trivial rfl

/-! ## 6. The status -/

/-- Where the document stands while executions of the embed stage follow each other: it is
settled as `ready` with every chunk embedded, or an execution has still something to do. -/
def Staged (w : World ω) : Pc ω .embed → Prop
  | .start => (w.status = some .ready ∧ w.AllEmbedded) ∨
    (w.status = some .embedding ∨ w.status = some .failed)
  | .claimed => w.status = some .embedding
  | .batching => w.status = some .embedding
  | .embedding _ => w.status = some .embedding ∧ ¬ w.AllEmbedded
  | .storing _ _ => w.status = some .embedding
  | .finishingEmbed => w.status = some .embedding ∧ w.AllEmbedded
  | .failing _ => w.status = some .embedding ∧ ¬ w.AllEmbedded
  | .marking _ => w.status = some .embedding ∧ ¬ w.AllEmbedded
  | .enqueueing _ => False
  | _ => (w.status = some .ready ∧ w.AllEmbedded) ∨
    ((w.status = some .embedding ∨ w.status = some .failed) ∧ ¬ w.AllEmbedded)

theorem Staged.doc (h : Staged w pc) : w.doc ≠ none := by
  have hstatus : ∀ {status}, w.status = some status → w.doc ≠ none := by
    intro status hst hnone
    simp [World.status, hnone] at hst
  cases pc with
  | start =>
    rcases h with h | h | h
    · exact hstatus h.1
    · exact hstatus h
    · exact hstatus h
  | claimed | batching | storing batch vectors => exact hstatus h
  | embedding batch | finishingEmbed | failing error | marking error => exact hstatus h.1
  | enqueueing next => exact h.elim
  | closing | ended how =>
    rcases h with h | ⟨h | h, -⟩
    · exact hstatus h.1
    · exact hstatus h
    · exact hstatus h

/-- A document whose claim is refused while it is staged is `ready`. -/
theorem staged_refused (h : Staged w .start) (hclaim : claimTx .embed w = none) :
    w.status = some .ready ∧ w.AllEmbedded := by
  have hrefuses : ∀ {status : DocStatus}, w.status = some status →
      status ∈ Stage.embed.allowedFrom → False := by
    intro status hst hmem
    obtain ⟨d, hd, rfl⟩ := exists_doc hst
    obtain ⟨w', hw'⟩ : ∃ w', claimTx .embed w = some w' := claimTx_isSome hd hmem
    rw [hclaim] at hw'
    exact nomatch hw'
  rcases h with h | h | h
  · exact h
  · exact (hrefuses h (by decide)).elim
  · exact (hrefuses h (by decide)).elim

theorem allEmbedded_congr (h : w'.chunks = w.chunks) : w'.AllEmbedded ↔ w.AllEmbedded := by
  rw [World.AllEmbedded, World.AllEmbedded, h]

/-- **One obliging step keeps the status right.** -/
theorem step_staged (hb : 1 ≤ A.batchSize) (hp : Staged w pc) (hhand : InHand A w pc)
    (h : EmbedStep A retries w pc choice w' pc') : Staged w' pc' := by
  cases h with
  | claim h => exact claimTx_status h
  | refused h => exact Or.inl (staged_refused hp h)
  | loaded _ => exact hp
  | gone hdoc => exact absurd hdoc hp.doc
  | drained h => exact ⟨hp, (listUnembedded_eq_nil hb).mp h⟩
  | batch h => exact ⟨hp, fun hall => h ((listUnembedded_eq_nil hb).mpr hall)⟩
  | replied _ => exact hp.1
  | permanent => exact hp
  | @transient batch e =>
    obtain ⟨htables, hmark | ⟨how, hend⟩⟩ :=
      @runStage_spec ω retries w .embed (.transient e.message)
    · generalize (runStage .embed retries w (.transient e.message)).2 = pc at hmark
      cases pc with
      | marking error =>
        exact ⟨htables.status.trans hp.1, fun hall =>
          hp.2 ((allEmbedded_congr htables.chunks).mp hall)⟩
      | _ => exact nomatch hmark
    · rw [hend]
      exact Or.inr ⟨Or.inl (htables.status.trans hp.1),
        fun hall => hp.2 ((allEmbedded_congr htables.chunks).mp hall)⟩
  | store => exact hp
  | finish h =>
    obtain ⟨d, -, -, hchunks, -⟩ := succeedTx_eq_some h
    exact Or.inl ⟨succeedTx_status h, (allEmbedded_congr hchunks).mpr hp.2⟩
  | fail h =>
    obtain ⟨d, -, -, hchunks, -⟩ := failTx_eq_some h
    exact Or.inr ⟨Or.inr (failTx_status h), fun hall => hp.2 ((allEmbedded_congr hchunks).mp hall)⟩
  | stranded hdoc _ => exact absurd hdoc hp.doc
  | enqueue _ => exact hp.elim
  | close => exact hp
  | mark h =>
    obtain ⟨d, -, -, hchunks, -⟩ := failTx_eq_some h
    exact Or.inr ⟨Or.inr (failTx_status h), fun hall => hp.2 ((allEmbedded_congr hchunks).mp hall)⟩
  | markLost hdoc => exact absurd hdoc hp.doc

/-- Between two executions the document is ready with every chunk embedded, or neither. -/
theorem Staged.ready_iff (h : Staged w pc) (hend : pc.isEnded = true) :
    w.status = some .ready ↔ w.AllEmbedded := by
  cases pc with
  | ended how =>
    rcases h with ⟨hready, hall⟩ | ⟨hst, hno⟩
    · exact ⟨fun _ => hall, fun _ => hready⟩
    · refine ⟨fun hready => ?_, fun hall => absurd hall hno⟩
      rcases hst with hst | hst <;> exact absurd (hst.symm.trans hready) (by decide)
  | _ => exact nomatch hend

theorem Staged.again (h : Staged w pc) (hend : pc.isEnded = true) : Staged w .start := by
  cases pc with
  | ended how => exact h.imp_right And.left
  | _ => exact nomatch hend

structure StagedInv (A : Adapters) (x : Resuming ω) : Prop where
  hand : InHand A x.world x.pc
  staged : Staged x.world x.pc

theorem step_stagedInv (hb : 1 ≤ A.batchSize) (hx : StagedInv A x)
    (h : EmbedStep A x.retries x.world x.pc choice w' pc') :
    StagedInv A ⟨w', x.retries, pc', x.calls ++ callsOf x.pc choice⟩ :=
  ⟨step_inHand hx.hand h, step_staged hb hx.staged hx.hand h⟩

/-! ## 7. The end of an execution -/

/-- Storing a batch leaves fewer rows without an embedding. -/
theorem store_unembedded {batch : List (ChunkRow ω)} {vectors : List ω}
    (hbatch : batch = w.listUnembedded A.batchSize) (hne : batch ≠ [])
    (hlen : vectors.length = batch.length) :
    (w.setEmbeddings ((batch.map ChunkRow.id).zip vectors) A.version).unembedded
      < w.unembedded := by
  obtain ⟨b, hb⟩ := List.exists_mem_of_ne_nil batch hne
  obtain ⟨hrow, hnone⟩ := mem_listUnembedded (hbatch ▸ hb)
  rw [World.unembedded, World.unembedded, setEmbeddings_store A.version hbatch hlen]
  refine countP_map_lt (b := b) (by simp [hnone]) ?_ hrow ?_
  · -- the row of the batch is embedded now
    cases hstored : (storeRow A.version (batch.zip vectors) b).embedding with
    | some v => rfl
    | none =>
      obtain ⟨p, hp, hpb⟩ := mem_zip_of_mem hlen hb
      exact absurd (by rw [hpb]) ((storeRow_embedding_none hstored).2.2 p hp)
  · intro c _ hc
    have hnone : (storeRow A.version (batch.zip vectors) c).embedding = none := by simpa using hc
    simp [(storeRow_embedding_none hnone).2.1]

/-- A batch has rows that are unembedded. -/
theorem unembedded_pos (h : w.listUnembedded n ≠ []) : 0 < w.unembedded := by
  obtain ⟨b, hb⟩ := List.exists_mem_of_ne_nil _ h
  obtain ⟨hrow, hnone⟩ := mem_listUnembedded hb
  exact List.countP_pos_iff.mpr ⟨b, hrow, by simp [hnone]⟩

theorem unembedded_congr (h : w'.chunks = w.chunks) : w'.unembedded = w.unembedded := by
  rw [World.unembedded, World.unembedded, h]

theorem cost_le (w : World ω) (pc : Pc ω .embed) : cost w pc ≤ 3 * w.unembedded + 8 := by
  cases pc <;> simp only [cost] <;> omega

/-- The shell has at most one step left. -/
theorem cost_runStage (retries : Nat) (w : World ω) (e : Exc) :
    cost (runStage .embed retries w e).1 (runStage .embed retries w e).2 ≤ 1 := by
  obtain ⟨-, hmark | ⟨how, hend⟩⟩ := @runStage_spec ω retries w .embed e
  · generalize (runStage .embed retries w e).2 = pc at hmark ⊢
    cases pc with
    | marking error => exact Nat.le_refl 1
    | _ => exact nomatch hmark
  · rw [hend]
    exact Nat.zero_le 1

/-- **Every step brings the execution nearer to its end.** -/
theorem step_cost (hhand : InHand A w pc) (h : EmbedStep A retries w pc choice w' pc') :
    cost w' pc' < cost w pc := by
  cases h with
  | claim h =>
    obtain ⟨d, -, -, -, hchunks, -⟩ := claimTx_eq_some h
    simp only [cost, unembedded_congr hchunks]
    omega
  | permanent =>
    obtain ⟨rfl, hne⟩ := hhand
    have hpos := unembedded_pos hne
    simp only [cost]
    omega
  | @transient batch e =>
    have hle := cost_runStage retries w (.transient e.message)
    have hcost : cost w (.embedding batch) = 3 * w.unembedded + 2 := rfl
    omega
  | store =>
    obtain ⟨hbatch, hne, hlen⟩ := hhand
    have hlt := store_unembedded hbatch hne hlen
    simp only [cost]
    omega
  | stranded _ hpc =>
    have hle := cost_runStage retries w foreignKeyViolation
    have hcost : cost w pc = 2 := by rcases hpc with rfl | ⟨error, rfl⟩ <;> rfl
    omega
  | _ =>
    simp only [cost]
    omega

theorem Resuming.step_eq_some {choice : Choice ω} (ho : Pipeline.Obliging x.pc choice)
    (h : x.step A (.step choice) = some x') :
    ∃ w' pc', EmbedStep A x.retries x.world x.pc choice w' pc' ∧
      x' = ⟨w', x.retries, pc', x.calls ++ callsOf x.pc choice⟩ := by
  obtain ⟨⟨w', pc'⟩, hstep, rfl⟩ := Option.map_eq_some_iff.mp h
  exact ⟨w', pc', embedStep_of_obliging ho hstep, rfl⟩

/-- An execution takes no more steps than its cost. -/
theorem run_length : ∀ {cs : List (Choice ω)} {x y : Resuming ω}, Resumed A w₀ x →
    Guarded (Resuming.step A) Resuming.Obliging x (cs.map .step) →
    run (Resuming.step A) x (cs.map .step) = some y → cs.length ≤ cost x.world x.pc := by
  intro cs
  induction cs with
  | nil => exact fun _ _ _ => Nat.zero_le _
  | cons c cs ih =>
    intro x y hx hg hrun
    obtain ⟨x₁, hstep, hrest⟩ := Option.bind_eq_some_iff.mp hrun
    obtain ⟨w', pc', hembed, rfl⟩ := Resuming.step_eq_some hg.1 hstep
    have hlt := step_cost hx.hand hembed
    have hle := ih (step_resumed hx hembed) (hg.2 _ hstep) hrest
    simp only [List.length_cons]
    dsimp only at hle
    omega

/-! ## 8. Documents of another stage -/

/-- Nothing but refused claims has happened. -/
def Untouched (w₀ : World ω) (x : Resuming ω) : Prop :=
  x.world.doc = w₀.doc ∧ x.calls = [] ∧
    (x.pc = .start ∨ x.pc = .closing ∨ ∃ how, x.pc = .ended how)

theorem step_untouched (hno : ∀ d, w₀.doc = some d → d.status ∉ Stage.embed.allowedFrom)
    (hx : Untouched w₀ x) (h : EmbedStep A x.retries x.world x.pc choice w' pc') :
    Untouched w₀ ⟨w', x.retries, pc', x.calls ++ callsOf x.pc choice⟩ := by
  obtain ⟨world, retries, pc, calls⟩ := x
  obtain ⟨hdoc, rfl, rfl | rfl | ⟨how, rfl⟩⟩ := hx
  · cases h with
    | claim h =>
      obtain ⟨d, hd, hmem, -⟩ := claimTx_eq_some h
      exact absurd hmem (hno d (hdoc.symm.trans hd))
    | refused _ => exact ⟨hdoc, rfl, Or.inr (Or.inl rfl)⟩
    | stranded _ hpc => rcases hpc with hpc | ⟨error, hpc⟩ <;> exact nomatch hpc
  · cases h with
    | close => exact ⟨hdoc, rfl, Or.inr (Or.inr ⟨_, rfl⟩)⟩
    | stranded _ hpc => rcases hpc with hpc | ⟨error, hpc⟩ <;> exact nomatch hpc
  · cases h with
    | stranded _ hpc => rcases hpc with hpc | ⟨error, hpc⟩ <;> exact nomatch hpc

/-! ## 9. The result -/

/-- What a sequence of embed executions that started in `w₀` has achieved in the state `x`. -/
structure Resumes (A : Adapters) (w₀ : World ω) (x : Resuming ω) : Prop where
  /-- The current execution ends within this many steps, -/
  terminates : ∀ (cs : List (Choice ω)) (y : Resuming ω),
    Guarded (Resuming.step A) Resuming.Obliging x (cs.map .step) →
    run (Resuming.step A) x (cs.map .step) = some y →
    cs.length ≤ 3 * x.world.unembedded + 8
  /-- and until then every reply of the provider leads on. -/
  proceeds : x.pc.isEnded = false → (∃ choice, Obliging x.pc choice) ∧
    ∀ choice, Obliging x.pc choice → ∃ y, x.step A (.step choice) = some y
  /-- A call, successful or not, takes no chunk that was embedded at the start. -/
  fresh : ∀ a ∈ x.calls, ∀ c ∈ a.batch, c ∈ w₀.chunks.rows ∧ c.embedding = none
  /-- No chunk is in two successful calls, or twice in one. -/
  once : ((x.calls.flatMap Call.embedded).map ChunkRow.id).Nodup
  /-- Calls take chunks in increasing `seq`: within a call, and after all that succeeded. -/
  sorted : ∀ a ∈ x.calls, a.batch.Pairwise fun c d => c.seq < d.seq
  ordered : x.calls.Pairwise fun a b => ∀ c ∈ a.embedded, ∀ d ∈ b.batch, c.seq < d.seq
  /-- Apart from a call whose vectors are not stored yet, the rows are those of the start with
  the vectors returned for them. -/
  stored : ∃ done, x.calls = done ++ inFlight x.pc ∧
    x.world.chunks.rows = w₀.chunks.rows.map (storeRow A.version (done.flatMap Call.pairs))
  /-- An execution leaves the document `ready` exactly when it leaves no chunk unembedded. -/
  ready : w₀.status = some .embedding ∨ w₀.status = some .failed → x.pc.isEnded = true →
    (x.world.status = some .ready ↔ x.world.AllEmbedded)
  /-- A document that is not for the embed stage is left alone. -/
  refused : w₀.status ≠ some .embedding ∧ w₀.status ≠ some .failed →
    x.calls = [] ∧ x.world.doc = w₀.doc

theorem step_obliging {Inv : Resuming ω → Prop}
    (hagain : ∀ x retries, Inv x → x.pc.isEnded = true →
      Inv { x with retries := retries, pc := .start })
    (hstep : ∀ (x : Resuming ω) choice w' pc', Inv x →
      EmbedStep A x.retries x.world x.pc choice w' pc' →
      Inv ⟨w', x.retries, pc', x.calls ++ callsOf x.pc choice⟩)
    {t : Turn ω} (hx : Inv x) (ho : x.Obliging t) (h : x.step A t = some x') : Inv x' := by
  cases t with
  | step choice =>
    obtain ⟨w', pc', hembed, rfl⟩ := Resuming.step_eq_some ho h
    exact hstep x choice w' pc' hx hembed
  | again retries =>
    simp only [Resuming.step] at h
    split at h
    · obtain rfl := Option.some.inj h
      exact hagain x retries hx ‹_›
    · exact nomatch h

/-- What successful calls took is in strictly increasing order, over all executions. -/
theorem CallsInv.embedded_sorted (hi : CallsInv w₀ calls) :
    (calls.flatMap Call.embedded).Pairwise fun c d => c.seq < d.seq := by
  refine List.pairwise_flatMap.mpr ⟨fun a ha => ?_, hi.ordered.imp fun h c hc d hd => ?_⟩
  · unfold Call.embedded
    split
    · exact hi.sorted a ha
    · exact List.Pairwise.nil
  · exact h c hc d (Call.embedded_subset hd)

theorem CallsInv.once (hi : CallsInv w₀ calls) :
    ((calls.flatMap Call.embedded).map ChunkRow.id).Nodup := by
  have hrow : ∀ c ∈ calls.flatMap Call.embedded, c ∈ w₀.chunks.rows := by
    intro c hc
    obtain ⟨a, ha, hc⟩ := List.mem_flatMap.mp hc
    exact (hi.fresh a ha c (Call.embedded_subset hc)).1
  refine List.pairwise_map.mpr (hi.embedded_sorted.imp_of_mem ?_)
  intro c d hc hd hlt heq
  obtain rfl := eq_of_id_eq (hrow c hc) (hrow d hd) heq
  exact absurd hlt (Nat.lt_irrefl _)

/-- **Embedding resumes where it stopped.**  In every state of every sequence of embed executions
that run one at a time, each provider call answered with one vector for each text or with an
error: executions end, no chunk is embedded twice, every vector is stored with the row it was
returned for, and the document becomes `ready` with its last chunk. -/
theorem embed_resumes (A : Adapters) (hb : 1 ≤ A.batchSize) (w₀ : World ω) (retries : Nat)
    (turns : List (Turn ω)) (x : Resuming ω)
    (hg : Guarded (Resuming.step A) Resuming.Obliging (w₀.resuming retries) turns)
    (hrun : run (Resuming.step A) (w₀.resuming retries) turns = some x) : Resumes A w₀ x := by
  have hresumed : Resumed A w₀ x := by
    refine run_invariant (fun _ _ _ hx ho h => step_obliging ?_ ?_ hx ho h) ?_ hg hrun
    · intro x k hx hend
      obtain ⟨world, retries, pc, calls⟩ := x
      cases pc with
      | ended how => exact ⟨trivial, hx.calls, hx.stored⟩
      | _ => exact nomatch hend
    · exact fun x choice w' pc' hx h => step_resumed hx h
    · exact ⟨trivial, ⟨by simp [World.resuming], by simp [World.resuming], by simp [World.resuming],
        List.Pairwise.nil⟩, [], rfl, (List.map_id _).symm, by simp⟩
  refine ⟨?_, ?_, hresumed.calls.fresh, hresumed.calls.once, hresumed.calls.sorted,
    hresumed.calls.ordered, ?_, ?_, ?_⟩
  · intro cs y hg hrun
    exact Nat.le_trans (run_length hresumed hg hrun) (cost_le _ _)
  · intro hend
    refine ⟨exists_obliging _, fun choice ho => ?_⟩
    obtain ⟨y, hy⟩ := obliging_steps A x.retries x.world hend ho
    exact ⟨_, by simp only [Resuming.step, hy]; rfl⟩
  · obtain ⟨done, hsplit, hstored⟩ := hresumed.stored
    exact ⟨done, hsplit, hstored.rows⟩
  · intro hstatus hend
    have hstaged : StagedInv A x := by
      refine run_invariant (fun _ _ _ hx ho h => step_obliging ?_ ?_ hx ho h) ?_ hg hrun
      · intro x k hx hend
        exact ⟨trivial, hx.staged.again hend⟩
      · exact fun x choice w' pc' hx h => step_stagedInv hb hx h
      · exact ⟨trivial, Or.inr hstatus⟩
    exact hstaged.staged.ready_iff hend
  · rintro ⟨hembedding, hfailed⟩
    have huntouched : Untouched w₀ x := by
      refine run_invariant (fun _ _ _ hx ho h => step_obliging ?_ ?_ hx ho h) ?_ hg hrun
      · exact fun x k hx _ => ⟨hx.1, hx.2.1, Or.inl rfl⟩
      · refine fun x choice w' pc' hx h => step_untouched ?_ hx h
        intro d hd hmem
        have hstatus : w₀.status = some d.status := by rw [World.status, hd]; rfl
        rw [hstatus] at hembedding hfailed
        simp only [Stage.allowedFrom, List.mem_cons, List.not_mem_nil, or_false] at hmem
        rcases hmem with hmem | hmem
        · exact hembedding (congrArg some hmem)
        · exact hfailed (congrArg some hmem)
      · exact ⟨rfl, rfl, Or.inl rfl⟩
    exact ⟨huntouched.2.1, huntouched.1⟩

/-- A document in `embedding` with three chunks, of which the second one is embedded already. -/
def sampleThreeChunks : World Nat where
  doc := some { status := .embedding, mime := "text/plain", filename := "a.txt", sourceId := 0 }
  chunks :=
    { rows := [⟨0, 0, ['a'], 1, {}, none, none⟩, ⟨1, 1, ['b'], 1, {}, some 5, some "v0"⟩,
        ⟨2, 2, ['c'], 1, {}, none, none⟩]
      pk := by decide
      uxDocSeq := by decide }
  jobs := fun _ => none
  objects := fun _ => none
  sent := []
  purgeSent := false
  nextId := 3

/-- The second call fails, and the second execution embeds the chunk that is left. -/
def resumedTurns : List (Turn Nat) :=
  [.step .go, .step .go, .step .go, .step (.reply (.ok [7])), .step .go, .step .go,
    .step (.reply (.error ⟨.transient, "busy"⟩)), .again 1, .step .go, .step .go, .step .go,
    .step (.reply (.ok [8])), .step .go, .step .go, .step .go, .step .go]

/-- Two executions, the first one interrupted: each missing chunk is embedded once. -/
theorem embed_resumes_twice :
    ∃ x, run (Resuming.step sampleAdapters) (sampleThreeChunks.resuming 0) resumedTurns = some x ∧
      Resumes sampleAdapters sampleThreeChunks x := by
  obtain ⟨x, hx⟩ : ∃ x, run (Resuming.step sampleAdapters) (sampleThreeChunks.resuming 0)
      resumedTurns = some x := Option.isSome_iff_exists.mp (by decide)
  exact ⟨x, hx, embed_resumes sampleAdapters (by decide) sampleThreeChunks 0 resumedTurns x
    (by decide) hx⟩

end AtlasKnowledge.Pipeline
