/-
# One list of citations

What retrieval returns is cut to the character budget once, and the list that is left is read at
four places: the blocks of the system prompt, the `citations` event, the `message_citations`
rows and `top_n` in the message's metadata.

* `Longest`: the list is the longest prefix whose numbered blocks fit into the budget;
* `one_list`: from the moment retrieval succeeds on, in every interleaving with other turns and
  on every path out of the turn, the four places agree.
-/
import AtlasKnowledge.Chat.SavedOnce
import Mathlib.Algebra.GroupWithZero.Nat

namespace AtlasKnowledge.Chat

open Interleave Transition

/-! ## 1. The budget -/

/-- A heading path, as it is shown. -/
def pathText : List Text → Text
  | [] => []
  | [heading] => heading
  | heading :: rest => heading ++ " > ".toList ++ pathText rest

/-- The block of a chunk: `[n] filename｜path` over its text, and no bar without a path. -/
def blockText (rank : Nat) (chunk : RetrievedChunk) : Text :=
  "[".toList ++ (Nat.repr rank).toList ++ "] ".toList ++ chunk.filename ++
    (if pathText chunk.info.headingPath = [] then []
      else "｜".toList ++ pathText chunk.info.headingPath) ++
    "\n".toList ++ chunk.text

/-- The blocks of chunks that are numbered from `k` on. -/
def renderFrom (k : Nat) (chunks : List RetrievedChunk) : List Text :=
  (chunks.zipIdx k).map fun (chunk, rank) => blockText rank chunk

/-- The length of these blocks. -/
def totalFrom (k : Nat) (chunks : List RetrievedChunk) : Nat :=
  ((renderFrom k chunks).map List.length).sum

/-- The longest prefix that fits into the budget, when its blocks are numbered from `k` on. -/
structure Longest (k : Nat) (charBudget : Int) (chunks used : List RetrievedChunk) : Prop where
  initial : used <+: chunks
  fits : used ≠ [] → totalFrom k used ≤ charBudget
  longest : ∀ p, p <+: chunks → totalFrom k p ≤ charBudget → p.length ≤ used.length

/-- The chunks that the loop adopts, without its accumulators. -/
def adoptedFrom (k : Nat) (remaining : Int) : List RetrievedChunk → List RetrievedChunk
  | [] => []
  | chunk :: chunks =>
    if remaining < (blockText k chunk).length then []
    else chunk :: adoptedFrom (k + 1) (remaining - (blockText k chunk).length) chunks

variable {k : Nat} {remaining : Int} {chunk : RetrievedChunk} {chunks used : List RetrievedChunk}

theorem pathText_eq (path : List Text) : pathText path = List.intercalate " > ".toList path := by
  induction path with
  | nil => rfl
  | cons heading rest ih =>
    cases rest with
    | nil => simp [pathText]
    | cons next rest => rw [pathText, ih, List.intercalate_cons_cons, List.append_assoc]; simp

/-- **`_render_block` gives the block.** -/
theorem renderBlock_eq (chunk : RetrievedChunk) (rank : Nat) :
    renderBlock chunk rank = blockText rank chunk := by
  unfold renderBlock blockText
  rw [pathText_eq]
  dsimp only
  split_ifs with hpath
  · simp
  · simp

@[simp] theorem renderFrom_cons : renderFrom k (chunk :: chunks)
    = blockText k chunk :: renderFrom (k + 1) chunks := by
  simp [renderFrom, List.zipIdx_cons]

@[simp] theorem totalFrom_cons : totalFrom k (chunk :: chunks)
    = (blockText k chunk).length + totalFrom (k + 1) chunks := by
  simp [totalFrom]

@[simp] theorem totalFrom_nil : totalFrom k [] = 0 := rfl

theorem renderFrom_eq_nil : renderFrom k chunks = [] ↔ chunks = [] := by
  cases chunks with
  | nil => simp [renderFrom]
  | cons chunk chunks => simp

/-- **The loop numbers the blocks as they come out**: the accumulators only grow by what
`adoptedFrom` takes. -/
theorem adoptChunks_eq : ∀ (chunks : List RetrievedChunk) (blocks : List Text)
    (used : List RetrievedChunk) (remaining : Int),
    adoptChunks blocks used remaining chunks =
      (blocks ++ renderFrom (used.length + 1) (adoptedFrom (used.length + 1) remaining chunks),
        used ++ adoptedFrom (used.length + 1) remaining chunks) := by
  intro chunks
  induction chunks with
  | nil =>
    intro blocks used remaining
    simp [adoptChunks, adoptedFrom, renderFrom]
  | cons chunk chunks ih =>
    intro blocks used remaining
    by_cases hfit : remaining < (blockText (used.length + 1) chunk).length
    · simp [adoptChunks, adoptedFrom, renderFrom, renderBlock_eq, hfit]
    · simp only [adoptChunks, adoptedFrom, renderBlock_eq, hfit, if_false]
      rw [ih, List.length_append, List.length_singleton, renderFrom_cons, List.append_assoc,
        List.append_assoc]
      rfl

/-- **What is adopted is the longest prefix that fits.** -/
theorem adopted_longest : ∀ (chunks : List RetrievedChunk) (k : Nat) (remaining : Int),
    Longest k remaining chunks (adoptedFrom k remaining chunks) := by
  intro chunks
  induction chunks with
  | nil =>
    intro k remaining
    refine ⟨List.prefix_rfl, fun h => absurd rfl h, fun p hp _ => ?_⟩
    rw [List.prefix_nil.mp hp]
    exact Nat.le_refl _
  | cons chunk chunks ih =>
    intro k remaining
    by_cases hfit : remaining < (blockText k chunk).length
    · simp only [adoptedFrom, hfit, if_true]
      refine ⟨List.nil_prefix, fun h => absurd rfl h, fun p hp htotal => ?_⟩
      cases p with
      | nil => exact Nat.le_refl _
      | cons c p =>
        obtain ⟨rfl, -⟩ := List.cons_prefix_cons.mp hp
        rw [totalFrom_cons] at htotal
        omega
    · simp only [adoptedFrom, hfit, if_false]
      obtain ⟨hinitial, hfits, hlongest⟩ :=
        ih (k + 1) (remaining - (blockText k chunk).length)
      refine ⟨List.cons_prefix_cons.mpr ⟨rfl, hinitial⟩, fun _ => ?_, fun p hp htotal => ?_⟩
      · rw [totalFrom_cons]
        -- an empty rest has no length of its own
        by_cases hnil : adoptedFrom (k + 1) (remaining - (blockText k chunk).length) chunks = []
        · rw [hnil, totalFrom_nil]
          omega
        · have hrest := hfits hnil
          omega
      · cases p with
        | nil => exact Nat.zero_le _
        | cons c p =>
          obtain ⟨rfl, hrest⟩ := List.cons_prefix_cons.mp hp
          rw [totalFrom_cons] at htotal
          have hle := hlongest p hrest (by omega)
          simp only [List.length_cons]
          omega

/-- The data part of the prompt. -/
def context (used : List RetrievedChunk) : Text :=
  if used = [] then ragEmpty else List.intercalate ['\n', '\n'] (renderFrom 1 used)

/-- The whole system prompt. -/
def groundedPrompt (base : Text) (used : List RetrievedChunk) : Text :=
  base ++ '\n' :: '\n' :: ragInstruction ++ '\n' :: '\n' :: context used

theorem ragSystemPrompt_eq (base : Text) (chunks : List RetrievedChunk) (charBudget : Int) :
    ragSystemPrompt base chunks charBudget =
      (groundedPrompt base (adoptedFrom 1 charBudget chunks), adoptedFrom 1 charBudget chunks) := by
  unfold ragSystemPrompt groundedPrompt context
  rw [adoptChunks_eq]
  simp only [List.nil_append, List.length_nil, Nat.zero_add, renderFrom_eq_nil]

/-! ## 2. The four places -/

/-- The lists of the `citations` events. -/
def citationLists (events : List Event) : List (List CitationItem) :=
  events.filterMap fun e => match e with
    | .citations items => some items
    | _ => none

/-- A stored citation, as an item of the event. -/
def CitationRow.item (c : CitationRow) : CitationItem :=
  ⟨c.rank, c.chunkId, c.documentId, c.filename, c.snippet, c.score⟩

/-- The four places hold one list, the one that was adopted of `chunks`. -/
structure OneList (cfg : Config) (history : List ChatMessage) (ids : List Id)
    (chunks : List RetrievedChunk) (db : Db) (t : Turn) : Prop where
  adopted : Longest 1 cfg.ragContextCharBudget chunks t.turn.citations
  prompt : t.turn.prompt
    = ⟨.system, groundedPrompt cfg.chatSystemPrompt t.turn.citations⟩ :: history
  event : citationLists t.emitted
    = if t.turn.citations = [] then [] else [citationItems t.turn.citations]
  ranks : (citationItems t.turn.citations).map CitationItem.rank
    = List.range' 1 t.turn.citations.length
  items : (citationItems t.turn.citations).map
      (fun i => (i.chunkId, i.documentId, i.filename, i.snippet, i.score))
    = t.turn.citations.map fun c => (c.chunkId, c.documentId, c.filename, c.text.take 200, c.score)
  stored : (db.messagesOf t.id = [] ∧ db.citationsOf t.id = []) ∨
    ∃ m, db.messagesOf t.id = [m] ∧
      (db.citationsOf t.id).map CitationRow.item = citationItems t.turn.citations ∧
      m.contentMeta.rag = some ⟨ids, t.turn.citations.length⟩

theorem citationItems_ranks (used : List RetrievedChunk) :
    (citationItems used).map CitationItem.rank = List.range' 1 used.length := by
  rw [citationItems, List.map_map, ← List.zipIdx_map_snd]
  rfl

theorem citationItems_items (used : List RetrievedChunk) :
    (citationItems used).map (fun i => (i.chunkId, i.documentId, i.filename, i.snippet, i.score))
      = used.map fun c => (c.chunkId, c.documentId, c.filename, c.text.take 200, c.score) := by
  conv_rhs => rw [← List.zipIdx_map_fst 1 used]
  rw [citationItems, List.map_map, List.map_map]
  rfl

theorem rows_item (turn : TurnContext) :
    turn.citationRows.map CitationRow.item = citationItems turn.citations := by
  rw [TurnContext.citationRows, citationItems, List.map_map]
  rfl

/-! ## 3. Transactions that write the list -/

/-- A message in the transaction comes with the turn's citations and their number. -/
def Txn.Cites (txn : Txn) (turn : TurnContext) : Prop :=
  ∀ row ∈ txn.message, txn.citations = turn.citationRows ∧
    row.contentMeta.rag = turn.sourceIds.map fun ids => ⟨ids, turn.citations.length⟩

/-- The database has nothing of the turn, or its message with the citations of the turn. -/
def Stored (db : Db) (turn : TurnContext) : Prop :=
  (db.messagesOf turn.assistantMessageId = [] ∧ db.citationsOf turn.assistantMessageId = []) ∨
    ∃ m, db.messagesOf turn.assistantMessageId = [m] ∧
      db.citationsOf turn.assistantMessageId = turn.citationRows ∧
      m.contentMeta.rag = turn.sourceIds.map fun ids => ⟨ids, turn.citations.length⟩

variable {cfg : Config} {db db' : Db} {t t' : Turn} {txn : Txn} {turn : TurnContext}

theorem Stored.congr (h : Stored db turn) (hsame : SameRows db db' turn.assistantMessageId) :
    Stored db' turn := by
  unfold Stored
  rw [hsame.messages, hsame.citations]
  exact h

/-- **A commit of such a transaction stores the message with its list.** -/
theorem Stored.commit (h : Stored db turn) (hof : txn.Of turn.assistantMessageId)
    (hcites : txn.Cites turn) (hcommit : db.commit? txn = some db') : Stored db' turn := by
  obtain ⟨hmessages, hcitations, -⟩ := commit_own hof hcommit
  cases hmessage : txn.message with
  | none =>
    rw [hmessage] at hmessages hcitations
    rw [Option.toList_none, List.append_nil] at hmessages
    rw [Option.isSome_none, if_neg Bool.false_ne_true, List.append_nil] at hcitations
    unfold Stored
    rw [hmessages, hcitations]
    exact h
  | some row =>
    obtain ⟨hrows, hrag⟩ := hcites row hmessage
    rw [hmessage, Option.toList_some] at hmessages
    rw [hmessage, Option.isSome_some, if_pos rfl, hrows] at hcitations
    rcases h with ⟨hnone, hempty⟩ | ⟨m, hone, -⟩
    · rw [hnone] at hmessages
      rw [hempty] at hcitations
      exact Or.inr ⟨row, hmessages, hcitations, hrag⟩
    · -- the primary key does not let a second message in
      have hlen := messagesOf_length_le db' turn.assistantMessageId
      rw [hmessages, hone] at hlen
      exact absurd hlen (by simp)

theorem Stored.attempt (h : Stored db turn) (hof : txn.Of turn.assistantMessageId)
    (hcites : txn.Cites turn) : Stored (db.attempt txn) turn := by
  unfold Db.attempt
  cases hcommit : db.commit? txn with
  | none => exact h
  | some db₁ => exact h.commit hof hcites hcommit

/-- **All three ways to save write the list.** -/
theorem saving_cites (h : t.saving cfg = some txn) : txn.Cites t.turn := by
  have herror : ∀ buffer code, (t.errorTxn cfg buffer code).Cites t.turn := by
    intro buffer code row hrow
    simp only [Turn.errorTxn] at hrow ⊢
    split at hrow
    · cases hrow
    · rename_i hbuffer
      obtain rfl := Option.some.inj hrow
      exact ⟨if_neg hbuffer, rfl⟩
  unfold Turn.saving at h
  split at h
  · obtain rfl := Option.some.inj h
    exact herror _ _
  · obtain rfl := Option.some.inj h
    exact herror _ _
  · obtain rfl := Option.some.inj h
    rintro row ⟨⟩
    exact ⟨rfl, rfl⟩
  · obtain rfl := Option.some.inj h
    rintro row ⟨⟩
    exact ⟨rfl, rfl⟩
  · cases h

theorem backgroundTxn_cites {buffer : List Text} (h : t.backgroundTxn cfg buffer = some txn) :
    txn.Cites t.turn := by
  unfold Turn.backgroundTxn at h
  split at h
  · exact nomatch h
  · obtain rfl := Option.some.inj h
    rintro row ⟨⟩
    exact ⟨rfl, rfl⟩

/-! ## 4. The turn before and after its retrieval -/

/-- The retrieval is still to come. -/
def Pc.isWaiting : Pc → Bool
  | .yieldStart => true
  | .retrieving => true
  | _ => false

/-- What holds from the moment the retrieval has succeeded on, with the turn's context as it was
then. -/
structure Grounded (cfg : Config) (turn : TurnContext) (db : Db) (t : Turn) : Prop where
  context : t.turn = turn
  late : t.pc.isWaiting = false
  event : citationLists t.emitted
    = if turn.citations = [] then [] else [citationItems turn.citations]
  own : t.OwnUnsettled
  unsettled : ∀ txn ∈ t.unsettled, txn.Cites turn
  stored : Stored db turn

/-- An event other than `citations` is none of these. -/
theorem citationLists_append (events : List Event) {e : Event} (h : ∀ items, e ≠ .citations items) :
    citationLists (events ++ [e]) = citationLists events := by
  unfold citationLists
  rw [List.filterMap_append]
  cases e with
  | citations items => exact absurd rfl (h items)
  | _ => exact List.append_nil _

/-- A step that saves nothing. -/
theorem Grounded.move (hg : Grounded cfg turn db t) (hturn : t'.turn = t.turn)
    (hlate : t'.pc.isWaiting = false)
    (hevents : citationLists t'.emitted = citationLists t.emitted)
    (hunsettled : ∀ txn ∈ t'.unsettled, txn ∈ t.unsettled ∨ t.saving cfg = some txn ∨
      ∃ buffer, t.backgroundTxn cfg buffer = some txn) : Grounded cfg turn db t' := by
  have hid : t'.id = t.id := congrArg (fun turn => turn.assistantMessageId) hturn
  refine ⟨hturn.trans hg.context, hlate, hevents.trans hg.event, ?_, ?_, hg.stored⟩
  · intro txn htxn
    rw [hid]
    rcases hunsettled txn htxn with hold | hsaving | ⟨buffer, htask⟩
    · exact hg.own txn hold
    · exact saving_of hsaving
    · exact backgroundTxn_of htask
  · intro txn htxn
    rw [← hg.context]
    rcases hunsettled txn htxn with hold | hsaving | ⟨buffer, htask⟩
    · rw [hg.context]
      exact hg.unsettled txn hold
    · exact saving_cites hsaving
    · exact backgroundTxn_cites htask

theorem Grounded.commit (hg : Grounded cfg turn db t) (hof : txn.Of t.id)
    (hcites : txn.Cites t.turn) (hcommit : db.commit? txn = some db') :
    Grounded cfg turn db' t := by
  have hid : t.id = turn.assistantMessageId :=
    congrArg (fun turn => turn.assistantMessageId) hg.context
  rw [hg.context] at hcites
  exact ⟨hg.context, hg.late, hg.event, hg.own, hg.unsettled,
    hg.stored.commit (hid ▸ hof) hcites hcommit⟩

theorem Grounded.attempt (hg : Grounded cfg turn db t) (hof : txn.Of t.id)
    (hcites : txn.Cites t.turn) : Grounded cfg turn (db.attempt txn) t := by
  unfold Db.attempt
  cases hcommit : db.commit? txn with
  | none => exact hg
  | some db₁ => exact hg.commit hof hcites hcommit

/-- What is yielded after a saving is no `citations` event. -/
theorem Grounded.afterSave (hg : Grounded cfg turn db t) (saved : Bool) :
    Grounded cfg turn db (t.afterSave saved) := by
  have hkeep : ∀ txn ∈ t.unsettled, txn ∈ t.unsettled ∨ t.saving cfg = some txn ∨
      ∃ buffer, t.backgroundTxn cfg buffer = some txn := fun _ h => Or.inl h
  unfold Turn.afterSave
  split
  · exact hg.move rfl rfl (citationLists_append _ nofun) hkeep
  · exact hg.move rfl rfl (citationLists_append _ nofun) hkeep
  · exact hg.move rfl rfl rfl hkeep
  · split
    · exact hg.move rfl rfl (citationLists_append _ nofun) hkeep
    · exact hg.move rfl rfl (citationLists_append _ nofun) hkeep
  · exact hg

/-- Resuming leads up to the retrieval from the first event only. -/
theorem resume_waiting (h : t.resume = some t') (hwait : t'.pc.isWaiting = true) :
    t.pc = .yieldStart := by
  unfold Turn.resume at h
  split at h
  · assumption
  · obtain rfl := Option.some.inj h
    exact nomatch hwait
  · obtain rfl := Option.some.inj h
    exact nomatch hwait
  · obtain rfl := Option.some.inj h
    exact nomatch hwait
  · obtain rfl := Option.some.inj h
    exact nomatch hwait
  · exact nomatch h

theorem close_waiting (h : t.close = some t') : t'.pc.isWaiting = false := by
  unfold Turn.close at h
  split at h
  · split at h
    · obtain rfl := Option.some.inj h
      dsimp only
      split <;> rfl
    · obtain rfl := Option.some.inj h
      rfl
  · exact nomatch h

theorem retrieved_waiting {r : Retrieval} (h : t.retrieved cfg r = some t') :
    t.pc = .retrieving ∧ t'.pc.isWaiting = false := by
  unfold Turn.retrieved at h
  split at h
  · refine ⟨by assumption, ?_⟩
    split at h
    · simp only at h
      split at h <;> obtain rfl := Option.some.inj h <;> rfl
    · obtain rfl := Option.some.inj h
      rfl
    · obtain rfl := Option.some.inj h
      rfl
  · exact nomatch h

theorem provided_waiting {step : ProviderStep} {latencyMs : Int}
    (h : t.provided step latencyMs = some t') : t'.pc.isWaiting = false := by
  unfold Turn.provided at h
  split at h
  · split at h <;> obtain rfl := Option.some.inj h <;> rfl
  · exact nomatch h

/-- **A step after the retrieval keeps the four places in agreement.** -/
theorem step_grounded {c : Choice} (hg : Grounded cfg turn db t)
    (h : t.step cfg db c = some (db', t')) : Grounded cfg turn db' t' := by
  have hkeep : ∀ txn ∈ t.unsettled, txn ∈ t.unsettled ∨ t.saving cfg = some txn ∨
      ∃ buffer, t.backgroundTxn cfg buffer = some txn := fun _ h => Or.inl h
  have hlate := hg.late
  cases c with
  | resume =>
    obtain ⟨rfl, hmoved⟩ := step_moved h
    have hlate' : t'.pc.isWaiting = false := by
      refine (Bool.not_eq_true _).mp fun hwait => ?_
      rw [resume_waiting hmoved hwait] at hlate
      exact nomatch hlate
    obtain ⟨pc, rfl⟩ := resume_eq hmoved
    exact hg.move rfl hlate' rfl hkeep
  | close =>
    obtain ⟨rfl, hmoved⟩ := step_moved h
    have hlate' := close_waiting hmoved
    obtain ⟨pc, rfl⟩ := close_eq hmoved
    exact hg.move rfl hlate' rfl hkeep
  | cancel =>
    obtain ⟨rfl, hmoved⟩ := step_moved h
    obtain ⟨-, rfl⟩ := cancel_eq hmoved
    refine hg.move rfl rfl rfl fun txn htxn => ?_
    rcases List.mem_append.mp htxn with hold | hnew
    · exact Or.inl hold
    · exact Or.inr (Or.inl (Option.mem_toList.mp hnew))
  | retrieved r =>
    obtain ⟨rfl, hmoved⟩ := step_moved h
    rw [(retrieved_waiting hmoved).1] at hlate
    exact nomatch hlate
  | provider step latencyMs =>
    obtain ⟨rfl, hmoved⟩ := step_moved h
    have hlate' := provided_waiting hmoved
    obtain ⟨pc, rfl | ⟨text, rfl⟩⟩ := provided_eq hmoved
    · exact hg.move rfl hlate' rfl hkeep
    · exact hg.move rfl hlate' (citationLists_append _ nofun) hkeep
  | commit =>
    obtain ⟨txn, htxn, heq⟩ := Option.map_eq_some_iff.mp h
    split at heq
    · rename_i db₁ hcommit
      obtain ⟨rfl, rfl⟩ := Prod.mk.inj heq
      exact (hg.commit (saving_of htxn) (saving_cites htxn) hcommit).afterSave true
    · obtain ⟨rfl, rfl⟩ := Prod.mk.inj heq
      exact hg.afterSave false
  | fail lost =>
    obtain ⟨txn, htxn, heq⟩ := Option.map_eq_some_iff.mp h
    obtain ⟨rfl, rfl⟩ := Prod.mk.inj heq
    have hafter := hg.afterSave false
    refine ⟨hafter.context, hafter.late, hafter.event, ?_, ?_, hafter.stored⟩
    · intro txn' htxn'
      rcases List.mem_append.mp htxn' with hold | hnew
      · exact (afterSave_id t false) ▸ hg.own txn' hold
      · cases lost with
        | true =>
          obtain rfl := List.mem_singleton.mp hnew
          exact (afterSave_id t false) ▸ saving_of htxn
        | false => exact nomatch hnew
    · intro txn' htxn'
      rcases List.mem_append.mp htxn' with hold | hnew
      · exact hg.unsettled txn' hold
      · cases lost with
        | true =>
          obtain rfl := List.mem_singleton.mp hnew
          exact hg.context ▸ saving_cites htxn
        | false => exact nomatch hnew
  | background k =>
    obtain ⟨buffer, -, heq⟩ := Option.map_eq_some_iff.mp h
    split at heq
    · rename_i txn htxn
      obtain ⟨rfl, rfl⟩ := Prod.mk.inj heq
      exact (hg.attempt (backgroundTxn_of htxn) (backgroundTxn_cites htxn)).move rfl hg.late
        rfl hkeep
    · obtain ⟨rfl, rfl⟩ := Prod.mk.inj heq
      exact hg.move rfl hg.late rfl hkeep
  | backgroundFail k lost =>
    obtain ⟨buffer, -, heq⟩ := Option.map_eq_some_iff.mp h
    obtain ⟨rfl, rfl⟩ := Prod.mk.inj heq
    refine hg.move rfl hg.late rfl fun txn htxn => ?_
    rcases List.mem_append.mp htxn with hold | hnew
    · exact Or.inl hold
    · split at hnew
      · exact Or.inr (Or.inr ⟨buffer, Option.mem_toList.mp hnew⟩)
      · exact nomatch hnew
  | settle k commits =>
    obtain ⟨txn, htxn, heq⟩ := Option.map_eq_some_iff.mp h
    obtain ⟨rfl, rfl⟩ := Prod.mk.inj heq
    have hmem : txn ∈ t.unsettled := List.mem_of_getElem? htxn
    have hleft : ∀ txn ∈ t.unsettled.eraseIdx k, txn ∈ t.unsettled ∨ t.saving cfg = some txn ∨
        ∃ buffer, t.backgroundTxn cfg buffer = some txn :=
      fun _ h => Or.inl (List.mem_of_mem_eraseIdx h)
    split
    · exact (hg.attempt (hg.own txn hmem) (hg.context ▸ hg.unsettled txn hmem)).move rfl hg.late
        rfl hleft
    · exact hg.move rfl hg.late rfl hleft

theorem afterSave_waiting (t : Turn) (saved : Bool)
    (h : (t.afterSave saved).pc.isWaiting = true) : t.afterSave saved = t := by
  unfold Turn.afterSave at h ⊢
  split at h
  · exact nomatch h
  · exact nomatch h
  · exact nomatch h
  · split at h <;> exact nomatch h
  · rfl

/-- A turn that waits for its retrieval has not changed. -/
theorem step_waiting {c : Choice} (h : t.step cfg db c = some (db', t'))
    (hwait : t'.pc.isWaiting = true) :
    t.pc.isWaiting = true ∧ t'.turn = t.turn ∧ t'.emitted = t.emitted := by
  cases c with
  | resume =>
    have h := (step_moved h).2
    have hpc := resume_waiting h hwait
    obtain ⟨pc, rfl⟩ := resume_eq h
    exact ⟨by rw [hpc]; rfl, rfl, rfl⟩
  | close => exact absurd hwait (by rw [close_waiting (step_moved h).2]; decide)
  | cancel =>
    obtain ⟨-, rfl⟩ := cancel_eq (step_moved h).2
    exact nomatch hwait
  | retrieved r => exact absurd hwait (by rw [(retrieved_waiting (step_moved h).2).2]; decide)
  | provider step latencyMs =>
    exact absurd hwait (by rw [provided_waiting (step_moved h).2]; decide)
  | commit =>
    obtain ⟨txn, -, heq⟩ := Option.map_eq_some_iff.mp h
    split at heq <;> obtain ⟨-, rfl⟩ := Prod.mk.inj heq
    · have hsame := afterSave_waiting t true hwait
      rw [hsame] at hwait ⊢
      exact ⟨hwait, rfl, rfl⟩
    · have hsame := afterSave_waiting t false hwait
      rw [hsame] at hwait ⊢
      exact ⟨hwait, rfl, rfl⟩
  | fail lost =>
    obtain ⟨txn, -, heq⟩ := Option.map_eq_some_iff.mp h
    obtain ⟨-, rfl⟩ := Prod.mk.inj heq
    have hsame := afterSave_waiting t false hwait
    dsimp only at hwait ⊢
    rw [hsame] at hwait ⊢
    exact ⟨hwait, rfl, rfl⟩
  | background k =>
    obtain ⟨buffer, -, heq⟩ := Option.map_eq_some_iff.mp h
    split at heq <;> obtain ⟨-, rfl⟩ := Prod.mk.inj heq <;> exact ⟨hwait, rfl, rfl⟩
  | backgroundFail k lost =>
    obtain ⟨buffer, -, heq⟩ := Option.map_eq_some_iff.mp h
    obtain ⟨-, rfl⟩ := Prod.mk.inj heq
    exact ⟨hwait, rfl, rfl⟩
  | settle k commits =>
    obtain ⟨txn, -, heq⟩ := Option.map_eq_some_iff.mp h
    obtain ⟨-, rfl⟩ := Prod.mk.inj heq
    exact ⟨hwait, rfl, rfl⟩

/-- **The retrieval grounds the turn.** -/
theorem retrieved_grounded {prepared : Prepared} (hpc : t.pc = .retrieving)
    (hturn : t.turn = { prepared with }) (hemitted : citationLists t.emitted = [])
    (hunsettled : t.unsettled = []) (hfresh : Fresh db t.id)
    (h : t.step cfg db (.retrieved (.chunks chunks)) = some (db', t')) :
    Grounded cfg
      { prepared with
        systemPrompt := groundedPrompt cfg.chatSystemPrompt
          (adoptedFrom 1 cfg.ragContextCharBudget chunks)
        citations := adoptedFrom 1 cfg.ragContextCharBudget chunks } db' t' := by
  have hid : prepared.assistantMessageId = t.id := by
    rw [Turn.id, hturn]
  have hstored : ∀ turn : TurnContext, turn.assistantMessageId = t.id → Stored db turn := by
    intro turn heq
    exact Or.inl ⟨heq ▸ hfresh.messages, heq ▸ hfresh.citations⟩
  obtain ⟨t₁, ht₁, heq⟩ := Option.map_eq_some_iff.mp h
  obtain ⟨rfl, rfl⟩ := Prod.mk.inj heq
  unfold Turn.retrieved at ht₁
  simp only [hpc, hturn, ragSystemPrompt_eq] at ht₁
  generalize groundedPrompt cfg.chatSystemPrompt (adoptedFrom 1 cfg.ragContextCharBudget chunks)
    = prompt at ht₁ ⊢
  generalize adoptedFrom 1 cfg.ragContextCharBudget chunks = used at ht₁ ⊢
  have hnone : ∀ txn, txn ∉ t.unsettled := by
    intro txn htxn
    rw [hunsettled] at htxn
    exact absurd htxn List.not_mem_nil
  split at ht₁ <;> rename_i hnil <;> obtain rfl := Option.some.inj ht₁
  · refine ⟨rfl, rfl, ?_, fun txn htxn => absurd htxn (hnone txn),
      fun txn htxn => absurd htxn (hnone txn), hstored _ hid⟩
    rw [if_pos hnil]
    exact hemitted
  · refine ⟨rfl, rfl, ?_, fun txn htxn => absurd htxn (hnone txn),
      fun txn htxn => absurd htxn (hnone txn), hstored _ hid⟩
    rw [if_neg hnil]
    simp only [Turn.emit, citationLists, List.filterMap_append]
    rw [← citationLists, hemitted]
    rfl

/-! ## 5. The result -/

/-- A grounded turn has one list. -/
theorem Grounded.oneList {prepared : Prepared} {ids : List Id}
    (hsource : prepared.sourceIds = some ids)
    (hg : Grounded cfg
      { prepared with
        systemPrompt := groundedPrompt cfg.chatSystemPrompt
          (adoptedFrom 1 cfg.ragContextCharBudget chunks)
        citations := adoptedFrom 1 cfg.ragContextCharBudget chunks } db t) :
    OneList cfg prepared.history ids chunks db t := by
  obtain ⟨hcontext, -, hevent, -, -, hstored⟩ := hg
  have hcitations : t.turn.citations = adoptedFrom 1 cfg.ragContextCharBudget chunks := by
    rw [hcontext]
  have hid : t.id = prepared.assistantMessageId := by rw [Turn.id, hcontext]
  refine ⟨?_, ?_, ?_, citationItems_ranks _, citationItems_items _, ?_⟩
  · rw [hcitations]
    exact adopted_longest chunks 1 cfg.ragContextCharBudget
  · rw [hcitations, TurnContext.prompt, hcontext]
  · rw [hcitations]
    exact hevent
  · rw [hcitations, hid]
    rcases hstored with hnone | ⟨m, hone, hrows, hrag⟩
    · exact Or.inl hnone
    · refine Or.inr ⟨m, hone, ?_, ?_⟩
      · rw [hrows, rows_item]
      · rw [hrag, hsource]
        rfl

/-- The turn at a position has not changed, as long as it waits for its retrieval. -/
def WaitsAt (i : Nat) (prepared : Prepared) (s : Sys) : Prop :=
  ∃ t, s.parties[i]? = some t ∧ (t.pc.isWaiting = true →
    t.turn = { prepared with } ∧ citationLists t.emitted = [])

theorem step_waitsAt {i : Nat} {prepared : Prepared} {s s' : Sys} {l : Nat × Choice}
    (hw : WaitsAt i prepared s) (h : s.step cfg l = some s') : WaitsAt i prepared s' := by
  obtain ⟨u, hu, hwait⟩ := hw
  obtain ⟨t, db, t', ht, hstep, rfl⟩ := Par.act_eq_some.mp h
  by_cases hi : i = l.1
  · subst hi
    obtain rfl := Option.some.inj (hu.symm.trans ht)
    refine ⟨t', set_self ht, fun hlate => ?_⟩
    obtain ⟨hearly, hturn, hemitted⟩ := step_waiting hstep hlate
    rw [hturn, hemitted]
    exact hwait hearly
  · exact ⟨u, by rw [set_other hi]; exact hu, hwait⟩

/-- The turn at a position is grounded. -/
def GroundedAt (cfg : Config) (i : Nat) (turn : TurnContext) (s : Sys) : Prop :=
  ∃ t, s.parties[i]? = some t ∧ Grounded cfg turn s.shared t

/-- **Every step of the system keeps a grounded turn grounded**: its own by `step_grounded`, the
others' because they leave its rows alone. -/
theorem step_groundedAt {allIds : List Id} (hids : allIds.Nodup) {i : Nat} {s s' : Sys}
    {l : Nat × Choice} (hi : Inv cfg allIds s) (hg : GroundedAt cfg i turn s)
    (h : s.step cfg l = some s') : GroundedAt cfg i turn s' := by
  obtain ⟨u, hu, hgu⟩ := hg
  have hothers := fun hne => step_sameRows hids hi hu hne h
  obtain ⟨t, db, t', ht, hstep, rfl⟩ := Par.act_eq_some.mp h
  by_cases hil : i = l.1
  · subst hil
    obtain rfl := Option.some.inj (hu.symm.trans ht)
    exact ⟨t', set_self ht, step_grounded hgu hstep⟩
  · refine ⟨u, by rw [set_other hil]; exact hu, hgu.context, hgu.late, hgu.event, hgu.own,
      hgu.unsettled, hgu.stored.congr ?_⟩
    have hid : u.id = turn.assistantMessageId := by rw [Turn.id, hgu.context]
    exact hid ▸ hothers hil

/-- **Prompt, event, rows and metadata are one list.**  For any number of turns in any
interleaving: once the retrieval of a turn with `source_ids` has returned `chunks`, the list it
adopts is the longest prefix whose blocks fit into the budget; the system prompt, the `citations`
event, and the rows and metadata that any path out of the turn stores are that list, and without
a message nothing is stored. -/
theorem one_list (cfg : Config) (db : Db) (turns : List (AuthContext × Id × Prepared))
    (hids : (turns.map fun p => p.2.2.assistantMessageId).Nodup)
    (hfresh : ∀ p ∈ turns, Fresh db p.2.2.assistantMessageId) (i : Nat)
    (p : AuthContext × Id × Prepared) (hp : turns[i]? = some p) (ids : List Id)
    (hsource : p.2.2.sourceIds = some ids) (chunks : List RetrievedChunk)
    (before after : List (Nat × Choice)) (s : Sys)
    (h : run (Sys.step cfg) (startAll db turns)
      (before ++ (i, .retrieved (.chunks chunks)) :: after) = some s) :
    ∃ t, s.parties[i]? = some t ∧ OneList cfg p.2.2.history ids chunks s.shared t := by
  obtain ⟨s₁, hbefore, hrest⟩ := run_append_eq_some.mp h
  obtain ⟨s₂, hstep, hafter⟩ := Option.bind_eq_some_iff.mp hrest
  have hinv₁ := run_invariant_of_step (fun _ _ _ hi hstep => inv_step hids hi hstep)
    (startAll_inv hfresh) hbefore
  have hwaits₁ : WaitsAt i p.2.2 s₁ := by
    refine run_invariant_of_step (fun _ _ _ hw hstep => step_waitsAt hw hstep) ?_ hbefore
    refine ⟨Turn.start p.1 p.2.1 p.2.2, ?_, fun _ => ⟨rfl, rfl⟩⟩
    rw [startAll, List.getElem?_map, hp]
    rfl
  -- at the retrieval, nothing has been saved yet
  have hgrounded₂ : GroundedAt cfg i
      { p.2.2 with
        systemPrompt := groundedPrompt cfg.chatSystemPrompt
          (adoptedFrom 1 cfg.ragContextCharBudget chunks)
        citations := adoptedFrom 1 cfg.ragContextCharBudget chunks } s₂ := by
    obtain ⟨u, hu, hwait⟩ := hwaits₁
    obtain ⟨t, db', t', ht, hown, rfl⟩ := Par.act_eq_some.mp hstep
    obtain rfl := Option.some.inj (hu.symm.trans ht)
    have hpc : u.pc = .retrieving := by
      obtain ⟨t₁, ht₁, -⟩ := Option.map_eq_some_iff.mp hown
      unfold Turn.retrieved at ht₁
      split at ht₁
      · assumption
      · cases ht₁
    obtain ⟨hturn, hemitted⟩ := hwait (by rw [hpc]; rfl)
    refine ⟨t', set_self ht, ?_⟩
    cases hinv₁.phase i u hu with
    | early _ fresh _ unsettled =>
      exact retrieved_grounded hpc hturn hemitted unsettled fresh hown
    | buffered pc _ _ _ =>
      rw [hpc] at pc
      cases pc
    | bare pc _ _ _ _ _ =>
      rw [hpc] at pc
      cases pc
  have hinv₂ := inv_step hids hinv₁ hstep
  have hend := run_invariant_of_step
    (fun _ _ _ hi hstep => And.intro (inv_step hids hi.1 hstep)
      (step_groundedAt hids hi.1 hi.2 hstep))
    (And.intro hinv₂ hgrounded₂) hafter
  obtain ⟨t, ht, hg⟩ := hend.2
  exact ⟨t, ht, hg.oneList hsource⟩

/-- Two chunks, of which the second one does not fit into a budget of 10 characters. -/
def sampleChunks : List RetrievedChunk :=
  [⟨7, 5, ['f'], ['x'], 1, {}⟩, ⟨8, 5, ['f'], List.replicate 9 'y', 1, {}⟩]

def tightConfig : Config := { sampleConfig with ragContextCharBudget := 10 }

def groundedTurn : AuthContext × Id × Prepared :=
  (sampleContext, 0, { samplePrepared with sourceIds := some [] })

/-- The turn is cut off after its first delta, and saved in the background. -/
def groundedRun : List (Nat × Choice) :=
  [(0, .resume)] ++ (0, .retrieved (.chunks sampleChunks)) ::
    [(0, .resume), (0, .provider (.event (.textDelta ['a'])) 0), (0, .cancel), (0, .background 0)]

theorem one_list_cutOff :
    ∃ s t, run (Sys.step tightConfig) (startAll .empty [groundedTurn]) groundedRun = some s ∧
      s.parties[0]? = some t ∧ (s.shared.citationsOf 1).map CitationRow.chunkId = [7] ∧
      OneList tightConfig samplePrepared.history [] sampleChunks s.shared t := by
  have hrun : (run (Sys.step tightConfig) (startAll .empty [groundedTurn]) groundedRun).map
      (fun s => (s.shared.citationsOf 1).map CitationRow.chunkId) = some [7] := by decide +kernel
  obtain ⟨s, hs, hstored⟩ := Option.map_eq_some_iff.mp hrun
  obtain ⟨t, ht, hone⟩ := one_list tightConfig .empty [groundedTurn] (by decide)
    (by
      intro p hp
      obtain rfl := List.mem_singleton.mp hp
      exact ⟨rfl, rfl, rfl⟩)
    0 groundedTurn rfl [] rfl sampleChunks [(0, .resume)] _ s hs
  exact ⟨s, t, hs, ht, hstored, hone⟩

end AtlasKnowledge.Chat
