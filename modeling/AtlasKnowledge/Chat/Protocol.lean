/-
# What the client receives

A consumer that drains `stream_reply`, over a provider that keeps its contract and a database in
which any transaction may fail: the events, the terminal event, and what of the turn is in the
database behind it.

* `protocol`: one message_start, at most one citations, the provider's texts as deltas, and one
  terminal event; done exactly if a whole answer is committed, an error of the provider under its
  own code, and one usage row if no transaction fails;
* `not_done_iff`: a partial with the same content is committed behind an error.
-/
import AtlasKnowledge.Chat.Rows
import AtlasKnowledge.Lib.Transition

namespace AtlasKnowledge.Chat

open Transition

/-! ## 1. The provider and the consumer -/

/-- What a provider may send (`domain/ports/llm.py`): texts and events to be ignored, at most one
usage report, then exactly one terminal event.  The index says that the usage was reported. -/
inductive Contract : Bool → List (StreamEvent Text) → Prop where
  | textDelta {reported : Bool} {evs : List (StreamEvent Text)} (text : Text) :
      Contract reported evs → Contract reported (.textDelta text :: evs)
  | other {reported : Bool} {evs : List (StreamEvent Text)} :
      Contract reported evs → Contract reported (.other :: evs)
  | usage {evs : List (StreamEvent Text)} (inputTokens outputTokens : Int) :
      Contract true evs → Contract false (.usage inputTokens outputTokens :: evs)
  | stop (reported : Bool) (stopReason : StopReason) : Contract reported [.stop stopReason]
  | error (reported : Bool) (code message : String) : Contract reported [.error code message]

theorem Contract.exists_cons {reported : Bool} {evs : List (StreamEvent Text)}
    (h : Contract reported evs) : ∃ ev rest, evs = ev :: rest := by
  cases h <;> exact ⟨_, _, rfl⟩

/-- What a drained turn meets: the outcome of the retrieval, the events that the provider still
has, and which of the coming transactions fail. -/
structure World where
  retrieval : Retrieval
  events : List (StreamEvent Text)
  latencyMs : Int
  fails : List Bool
  deriving DecidableEq, Repr

/-- The consumer asks for every event, the provider sends the next one, and the database decides
by the list. -/
def World.choose (w : World) (t : Turn) : Option (Choice × World) :=
  match t.pc with
  | .yieldStart => some (.resume, w)
  | .retrieving => some (.retrieved w.retrieval, w)
  | .yieldCitations => some (.resume, w)
  | .streaming _ =>
    match w.events with
    | [] => some (.provider .finished w.latencyMs, w)
    | ev :: evs => some (.provider (.event ev) w.latencyMs, { w with events := evs })
  | .yieldDelta _ => some (.resume, w)
  | .yieldStreamError _ => some (.resume, w)
  | .yieldLast => some (.resume, w)
  | .ended _ => none
  | _ =>
    some (if w.fails.headD false then .fail false else .commit, { w with fails := w.fails.tail })

/-- The turn under way in its world. -/
structure Drain where
  world : World
  db : Db
  turn : Turn

def Drain.next (cfg : Config) (d : Drain) : Option Drain :=
  (d.world.choose d.turn).bind fun (c, w) =>
    (d.turn.step cfg d.db c).map fun (db, t) => ⟨w, db, t⟩

/-- `async for ev in stream_reply(...)`, for `n` steps or to its end. -/
def drain (cfg : Config) (n : Nat) (d : Drain) : Drain := drive (Drain.next cfg) n d

/-! ## 2. The protocol -/

/-- The texts of the provider's deltas. -/
def textsOf (evs : List (StreamEvent Text)) : List Text :=
  evs.filterMap fun ev => match ev with
    | .textDelta text => some text
    | _ => none

/-- The chunks that the prompt adopts. -/
def adopted (cfg : Config) (prepared : Prepared) (r : Retrieval) : List RetrievedChunk :=
  match prepared.sourceIds, r with
  | some _, .chunks chunks =>
    (ragSystemPrompt cfg.chatSystemPrompt chunks cfg.ragContextCharBudget).2
  | _, _ => []

/-- The events that the provider sends; it is not asked after a failed retrieval. -/
def sent (prepared : Prepared) (w : World) : List (StreamEvent Text) :=
  match prepared.sourceIds, w.retrieval with
  | none, _ => w.events
  | some _, .chunks _ => w.events
  | some _, _ => []

/-- It is `done`. -/
def Event.isDone : Event → Bool
  | .done _ _ _ _ _ => true
  | _ => false

/-- It is `error`. -/
def Event.isError : Event → Bool
  | .error _ _ _ => true
  | _ => false

/-- The citations event, if there is something to cite. -/
def citationEvents (chunks : List RetrievedChunk) : List Event :=
  if chunks = [] then [] else [.citations (citationItems chunks)]

/-- The deltas of a turn are those between its opening and its terminal event. -/
theorem deltasOf_events (userMessageId assistantMessageId : Id) (chunks : List RetrievedChunk)
    (texts : List Text) {terminal : Event}
    (hlast : terminal.isDone = true ∨ terminal.isError = true) :
    deltasOf (.messageStart userMessageId assistantMessageId ::
      (citationEvents chunks ++ texts.map Event.delta ++ [terminal])) = texts := by
  have hcitations : deltasOf (citationEvents chunks) = [] := by
    unfold citationEvents
    split <;> rfl
  have hterminal : deltasOf [terminal] = [] := by
    cases terminal with
    | delta text => simp [Event.isDone, Event.isError] at hlast
    | _ => rfl
  have htexts : deltasOf (texts.map Event.delta) = texts := by
    induction texts with
    | nil => rfl
    | cons text texts ih => exact congrArg (text :: ·) ih
  show deltasOf (citationEvents chunks ++ texts.map Event.delta ++ [terminal]) = texts
  simp only [deltasOf, List.filterMap_append] at hcitations hterminal htexts ⊢
  rw [hcitations, hterminal, htexts, List.nil_append, List.append_nil]

/-- What the client has received, and what the database has of the turn. -/
structure Protocol (cfg : Config) (ctx : AuthContext) (prepared : Prepared) (w : World)
    (terminal : Event) (db : Db) (emitted : List Event) : Prop where
  events : emitted =
    .messageStart prepared.userMessageId prepared.assistantMessageId ::
      (citationEvents (adopted cfg prepared w.retrieval) ++
        (textsOf (sent prepared w)).map Event.delta ++ [terminal])
  last : terminal.isDone = true ∨ terminal.isError = true
  done : terminal.isDone = true ↔ ∃ m ∈ db.messagesOf prepared.assistantMessageId,
    m.role = .assistant ∧ m.content = (deltasOf emitted).flatten ∧
      m.contentMeta.isPartial = false
  streamError : ∀ code message, .error code message ∈ sent prepared w →
    terminal = .error code message ctx.traceId
  usage : (∀ fails ∈ w.fails, fails = false) →
    ∃ row, db.usageOf prepared.assistantMessageId = [row] ∧
      (row.status = .ok ↔ terminal.isDone = true)

/-! ## 3. The stages of a drained turn -/

section Stages

variable (cfg : Config) (ctx : AuthContext) (prepared : Prepared) (w₀ : World)

/-- What the client has received when the provider is asked. -/
def opening : List Event :=
  .messageStart prepared.userMessageId prepared.assistantMessageId ::
    citationEvents (adopted cfg prepared w₀.retrieval)

/-- Nothing of the turn has been saved yet, and no transaction has been tried. -/
structure Unsaved (d : Drain) : Prop where
  id : d.turn.id = prepared.assistantMessageId
  ctx : d.turn.ctx = ctx
  fresh : Fresh d.db prepared.assistantMessageId
  fails : d.world.fails = w₀.fails

/-- Before the retrieval. -/
structure Early (d : Drain) : Prop extends Unsaved ctx prepared w₀ d where
  world : d.world = w₀
  sourceIds : d.turn.turn.sourceIds = prepared.sourceIds
  emitted : d.turn.emitted =
    [.messageStart prepared.userMessageId prepared.assistantMessageId]

/-- The provider has sent the texts in the buffer, and has the rest of its events. -/
structure Streams (f : Frame) (d : Drain) : Prop extends Unsaved ctx prepared w₀ d where
  contract : ∃ reported, Contract reported d.world.events
  emitted : d.turn.emitted = opening cfg prepared w₀ ++ f.buffer.map Event.delta
  texts : textsOf (sent prepared w₀) = f.buffer ++ textsOf d.world.events
  errors : ∀ code message, .error code message ∈ sent prepared w₀ →
    .error code message ∈ d.world.events

/-- All texts are out; the transaction and the terminal event are to come. -/
structure Full (buffer : List Text) (d : Drain) : Prop extends Unsaved ctx prepared w₀ d where
  emitted : d.turn.emitted = opening cfg prepared w₀ ++ buffer.map Event.delta
  texts : textsOf (sent prepared w₀) = buffer

/-- The stage at which a drained turn stands. -/
inductive Stage (d : Drain) : Prop where
  | start (h : Early ctx prepared w₀ d) (hpc : d.turn.pc = .yieldStart)
  | retrieving (h : Early ctx prepared w₀ d) (hpc : d.turn.pc = .retrieving)
      (hrag : prepared.sourceIds.isSome = true)
  | citations (h : Streams cfg ctx prepared w₀ {} d) (hpc : d.turn.pc = .yieldCitations)
  | streaming (f : Frame) (h : Streams cfg ctx prepared w₀ f d) (hpc : d.turn.pc = .streaming f)
  | delta (f : Frame) (h : Streams cfg ctx prepared w₀ f d) (hpc : d.turn.pc = .yieldDelta f)
  | saveRetrievalError (code message : String) (h : Full cfg ctx prepared w₀ [] d)
      (hpc : d.turn.pc = .saveRetrievalError code message) (hsent : sent prepared w₀ = [])
  | saveStreamError (f : Frame) (code message : String) (h : Full cfg ctx prepared w₀ f.buffer d)
      (hpc : d.turn.pc = .saveStreamError f code message)
      (herror : ∀ code' message', .error code' message' ∈ sent prepared w₀ →
        code' = code ∧ message' = message)
  | saveSuccess (f : Frame) (latencyMs : Int) (h : Full cfg ctx prepared w₀ f.buffer d)
      (hpc : d.turn.pc = .saveSuccess f latencyMs)
      (hnone : ∀ code message, .error code message ∉ sent prepared w₀)
  | done (terminal : Event) (h : Protocol cfg ctx prepared w₀ terminal d.db d.turn.emitted)
      (hpc : (∃ f, d.turn.pc = .yieldStreamError f) ∨ d.turn.pc = .yieldLast ∨
        d.turn.pc = .ended .returned)

end Stages

/-! ## 4. The steps -/

variable {cfg : Config} {ctx : AuthContext} {prepared : Prepared} {w₀ : World} {d : Drain}
  {f : Frame} {buffer : List Text} {db : Db}

/-- How far the turn is from its end. -/
def Drain.measure (d : Drain) : Nat :=
  match d.turn.pc with
  | .yieldStart => 2 * d.world.events.length + 6
  | .retrieving => 2 * d.world.events.length + 5
  | .yieldCitations => 2 * d.world.events.length + 4
  | .streaming _ => 2 * d.world.events.length + 3
  | .yieldDelta _ => 2 * d.world.events.length + 4
  | .yieldStreamError _ => 1
  | .yieldLast => 1
  | .ended _ => 0
  | _ => 2

/-- The turn goes on to its next stage, and nearer to its end. -/
def Advances (cfg : Config) (ctx : AuthContext) (prepared : Prepared) (w₀ : World) (d : Drain) :
    Prop :=
  ∃ d', d.next cfg = some d' ∧ Stage cfg ctx prepared w₀ d' ∧ d'.measure < d.measure

/-- One step, from the choice and its effect. -/
theorem next_eq {c : Choice} {w : World} {db : Db} {t : Turn}
    (hchoose : d.world.choose d.turn = some (c, w))
    (hstep : d.turn.step cfg d.db c = some (db, t)) : d.next cfg = some ⟨w, db, t⟩ := by
  simp only [Drain.next, hchoose, Option.bind_some, hstep, Option.map_some]

theorem stage_start (hcontract : Contract false w₀.events) (hd : Early ctx prepared w₀ d)
    (hpc : d.turn.pc = .yieldStart) :
    Advances cfg ctx prepared w₀ d := by
  have hchoose : d.world.choose d.turn = some (.resume, d.world) := by
    simp only [World.choose, hpc]
  have hstep : d.turn.step cfg d.db .resume = some (d.db, { d.turn with
      pc := if d.turn.turn.sourceIds.isSome then .retrieving else .streaming {} }) := by
    simp only [Turn.step, Turn.resume, hpc, Option.map_some]
  have hnext := next_eq hchoose hstep
  rw [hd.sourceIds] at hnext
  cases hrag : prepared.sourceIds with
  | some ids =>
    simp only [hrag, Option.isSome_some, if_true] at hnext
    refine ⟨_, hnext, .retrieving ⟨⟨hd.id, hd.ctx, hd.fresh, hd.fails⟩, hd.world, hd.sourceIds,
      hd.emitted⟩ rfl (by rw [hrag]; rfl), ?_⟩
    simp only [Drain.measure, hpc]
    omega
  | none =>
    simp only [hrag, Option.isSome_none, Bool.false_eq_true, if_false] at hnext
    have hsent : sent prepared w₀ = w₀.events := by simp only [sent, hrag]
    have hadopted : adopted cfg prepared w₀.retrieval = [] := by simp only [adopted, hrag]
    have hstreams : Streams cfg ctx prepared w₀ {} ⟨d.world, d.db, { d.turn with
        pc := .streaming {} }⟩ := by
      refine ⟨⟨hd.id, hd.ctx, hd.fresh, hd.fails⟩, ⟨false, ?_⟩, ?_, ?_, ?_⟩
      · simp only [hd.world, hcontract]
      · simp only [hd.emitted, opening, hadopted, citationEvents, if_true, List.map_nil,
          List.append_nil]
      · simp only [hsent, hd.world, List.nil_append]
      · intro code message hmem
        simpa only [hsent, hd.world] using hmem
    refine ⟨_, hnext, .streaming {} hstreams rfl, ?_⟩
    simp only [Drain.measure, hpc]
    omega

theorem stage_retrieving (hcontract : Contract false w₀.events) (hd : Early ctx prepared w₀ d)
    (hpc : d.turn.pc = .retrieving) (hrag : prepared.sourceIds.isSome = true) :
    Advances cfg ctx prepared w₀ d := by
  have hchoose : d.world.choose d.turn = some (.retrieved w₀.retrieval, d.world) := by
    simp only [World.choose, hpc, hd.world]
  obtain ⟨ids, hids⟩ := Option.isSome_iff_exists.mp hrag
  -- a failed retrieval: nothing is cited and the provider is not asked
  have hfailed : ∀ code message, sent prepared w₀ = [] → adopted cfg prepared w₀.retrieval = [] →
      d.turn.step cfg d.db (.retrieved w₀.retrieval)
        = some (d.db, { d.turn with pc := .saveRetrievalError code message }) →
      Advances cfg ctx prepared w₀ d := by
    intro code message hsent hadopted hstep
    have hnext := next_eq hchoose hstep
    refine ⟨_, hnext, .saveRetrievalError code message
      ⟨⟨hd.id, hd.ctx, hd.fresh, hd.fails⟩, ?_, ?_⟩ rfl hsent, ?_⟩
    · simp only [hd.emitted, opening, hadopted, citationEvents, if_true, List.map_nil,
        List.append_nil]
    · rw [hsent]
      rfl
    · simp only [Drain.measure, hpc]
      omega
  cases hretrieval : w₀.retrieval with
  | embeddingError code message =>
    refine hfailed code message ?_ ?_ ?_
    · simp only [sent, hids, hretrieval]
    · simp only [adopted, hids, hretrieval]
    · simp only [Turn.step, Turn.retrieved, hpc, hretrieval, Option.map_some]
  | otherException =>
    refine hfailed "internal_error" retrievalFailedMessage ?_ ?_ ?_
    · simp only [sent, hids, hretrieval]
    · simp only [adopted, hids, hretrieval]
    · simp only [Turn.step, Turn.retrieved, hpc, hretrieval, Option.map_some]
  | chunks chunks =>
    have hsent : sent prepared w₀ = w₀.events := by simp only [sent, hids, hretrieval]
    obtain ⟨systemPrompt, used, hprompt⟩ : ∃ systemPrompt used,
        ragSystemPrompt cfg.chatSystemPrompt chunks cfg.ragContextCharBudget =
          (systemPrompt, used) :=
      ⟨_, _, rfl⟩
    have hadopted : adopted cfg prepared w₀.retrieval = used := by
      simp only [adopted, hids, hretrieval, hprompt]
    have hstreams : ∀ d₁ : Drain, d₁.world = d.world → d₁.db = d.db → d₁.turn.id = d.turn.id →
        d₁.turn.ctx = d.turn.ctx →
        d₁.turn.emitted = d.turn.emitted ++ citationEvents used →
        Streams cfg ctx prepared w₀ {} d₁ := by
      intro d₁ hworld hdb hid hctx hemitted
      refine ⟨⟨hid.trans hd.id, hctx.trans hd.ctx, hdb ▸ hd.fresh, hworld ▸ hd.fails⟩,
        ⟨false, ?_⟩, ?_, ?_, ?_⟩
      · rw [hworld, hd.world]
        exact hcontract
      · rw [hemitted, hd.emitted, opening, hadopted]
        simp
      · rw [hsent, hworld, hd.world]
        rfl
      · intro code message hmem
        rw [hworld, hd.world]
        exact hsent ▸ hmem
    by_cases hused : used = []
    · have hstep : d.turn.step cfg d.db (.retrieved w₀.retrieval) = some (d.db, { d.turn with
          turn := { d.turn.turn with systemPrompt := systemPrompt, citations := used }
          pc := .streaming {} }) := by
        simp only [Turn.step, Turn.retrieved, hpc, hretrieval, hprompt, hused, if_true,
          Option.map_some]
      have hnext := next_eq hchoose hstep
      refine ⟨_, hnext, .streaming {} (hstreams _ rfl rfl rfl rfl ?_) rfl, ?_⟩
      · simp only [citationEvents, hused, if_true, List.append_nil]
      · simp only [Drain.measure, hpc]
        omega
    · have hstep : d.turn.step cfg d.db (.retrieved w₀.retrieval) = some (d.db, { d.turn with
          turn := { d.turn.turn with systemPrompt := systemPrompt, citations := used }
          emitted := d.turn.emitted ++ [.citations (citationItems used)]
          pc := .yieldCitations }) := by
        simp only [Turn.step, Turn.retrieved, hpc, hretrieval, hprompt, hused, if_false, Turn.emit,
          Option.map_some]
      have hnext := next_eq hchoose hstep
      refine ⟨_, hnext, .citations (hstreams _ rfl rfl rfl rfl ?_) rfl, ?_⟩
      · simp only [citationEvents, hused, if_false]
      · simp only [Drain.measure, hpc]
        omega

/-- The consumer asks for the next event of the stream. -/
theorem stage_resume (hd : Streams cfg ctx prepared w₀ f d)
    (hchoose : d.world.choose d.turn = some (.resume, d.world))
    (hresume : d.turn.resume = some { d.turn with pc := .streaming f })
    (hmeasure : d.measure = 2 * d.world.events.length + 4) :
    Advances cfg ctx prepared w₀ d := by
  have hstep : d.turn.step cfg d.db .resume = some (d.db, { d.turn with pc := .streaming f }) := by
    simp only [Turn.step, hresume, Option.map_some]
  have hnext := next_eq hchoose hstep
  refine ⟨_, hnext, .streaming f ⟨⟨hd.id, hd.ctx, hd.fresh, hd.fails⟩, hd.contract, hd.emitted,
    hd.texts, hd.errors⟩ rfl, ?_⟩
  rw [hmeasure]
  simp only [Drain.measure]
  omega

/-- **The provider sends its next event.**  The cases are those of its contract. -/
theorem stage_streaming (hd : Streams cfg ctx prepared w₀ f d) (hpc : d.turn.pc = .streaming f) :
    Advances cfg ctx prepared w₀ d := by
  obtain ⟨reported, hcontract⟩ := hd.contract
  obtain ⟨ev, evs, hevents⟩ := hcontract.exists_cons
  have hchoose : d.world.choose d.turn
      = some (.provider (.event ev) d.world.latencyMs, { d.world with events := evs }) := by
    simp only [World.choose, hpc, hevents]
  have htexts := hd.texts
  have herrors := hd.errors
  rw [hevents] at hcontract htexts herrors
  -- the provider goes on
  have hgoes : ∀ (pc : Pc) (f' : Frame) (emitted : List Event),
      d.turn.step cfg d.db (.provider (.event ev) d.world.latencyMs)
        = some (d.db, { d.turn with pc := pc, emitted := emitted }) →
      (pc = .streaming f' ∨ pc = .yieldDelta f') → (∃ reported, Contract reported evs) →
      emitted = opening cfg prepared w₀ ++ f'.buffer.map Event.delta →
      textsOf (sent prepared w₀) = f'.buffer ++ textsOf evs →
      (∀ code message, ev ≠ .error code message) →
      Advances cfg ctx prepared w₀ d := by
    intro pc f' emitted hstep hplace hrest hemitted htexts' hno
    have hnext := next_eq hchoose hstep
    have hstreams : Streams cfg ctx prepared w₀ f' ⟨{ d.world with events := evs }, d.db,
        { d.turn with pc := pc, emitted := emitted }⟩ := by
      refine ⟨⟨hd.id, hd.ctx, hd.fresh, hd.fails⟩, hrest, hemitted, htexts', ?_⟩
      intro code message hmem
      rcases List.mem_cons.mp (herrors code message hmem) with hhead | hlater
      · exact absurd hhead.symm (hno code message)
      · exact hlater
    rcases hplace with rfl | rfl
    · refine ⟨_, hnext, .streaming f' hstreams rfl, ?_⟩
      simp only [Drain.measure, hpc, hevents, List.length_cons]
      omega
    · refine ⟨_, hnext, .delta f' hstreams rfl, ?_⟩
      simp only [Drain.measure, hpc, hevents, List.length_cons]
      omega
  cases hcontract with
  | textDelta text hrest =>
    refine hgoes (.yieldDelta { f with buffer := f.buffer ++ [text] }) _
      (d.turn.emitted ++ [.delta text]) ?_ (Or.inr rfl) ⟨_, hrest⟩ ?_ ?_ (fun _ _ => nofun)
    · simp only [Turn.step, Turn.provided, hpc, Turn.emit, Option.map_some]
    · rw [hd.emitted, List.map_append, List.append_assoc]
      rfl
    · rw [htexts, List.append_assoc]
      rfl
  | other hrest =>
    refine hgoes (.streaming f) f d.turn.emitted ?_ (Or.inl rfl) ⟨_, hrest⟩ hd.emitted htexts
      (fun _ _ => nofun)
    simp only [Turn.step, Turn.provided, hpc, Option.map_some]
  | usage tokensIn tokensOut hrest =>
    refine hgoes (.streaming { f with tokensIn := some tokensIn, tokensOut := some tokensOut }) _
      d.turn.emitted ?_ (Or.inl rfl) ⟨_, hrest⟩ hd.emitted htexts (fun _ _ => nofun)
    simp only [Turn.step, Turn.provided, hpc, Option.map_some]
  | stop reported stopReason =>
    have hstep : d.turn.step cfg d.db (.provider (.event (.stop stopReason)) d.world.latencyMs)
        = some (d.db, { d.turn with
            pc := .saveSuccess { f with stopReason := stopReason } d.world.latencyMs }) := by
      simp only [Turn.step, Turn.provided, hpc, Option.map_some]
    have hnext := next_eq hchoose hstep
    refine ⟨_, hnext, .saveSuccess { f with stopReason := stopReason } d.world.latencyMs
      ⟨⟨hd.id, hd.ctx, hd.fresh, hd.fails⟩, hd.emitted, ?_⟩ rfl ?_, ?_⟩
    · rw [htexts]
      exact List.append_nil _
    · intro code message hmem
      exact nomatch List.mem_singleton.mp (herrors code message hmem)
    · simp only [Drain.measure, hpc]
      omega
  | error reported code message =>
    have hstep : d.turn.step cfg d.db (.provider (.event (.error code message)) d.world.latencyMs)
        = some (d.db, { d.turn with pc := .saveStreamError f code message }) := by
      simp only [Turn.step, Turn.provided, hpc, Option.map_some]
    have hnext := next_eq hchoose hstep
    refine ⟨_, hnext, .saveStreamError f code message
      ⟨⟨hd.id, hd.ctx, hd.fresh, hd.fails⟩, hd.emitted, ?_⟩ rfl ?_, ?_⟩
    · rw [htexts]
      exact List.append_nil _
    · intro code' message' hmem
      have heq := List.mem_singleton.mp (herrors code' message' hmem)
      exact StreamEvent.error.inj heq
    · simp only [Drain.measure, hpc]
      omega

/-! ## 5. The transaction and the terminal event -/

/-- The awaited transaction commits, or it is one that the list lets fail. -/
theorem next_saving {txn : Txn} (hsaving : d.turn.saving cfg = some txn)
    (hchoose : d.world.choose d.turn = some (if d.world.fails.headD false then .fail false
      else .commit, { d.world with fails := d.world.fails.tail }))
    (hnone : d.db.messagesOf d.turn.id = []) :
    ∃ d' saved, d.next cfg = some d' ∧ d'.turn.pc = (d.turn.afterSave saved).pc ∧
      d'.turn.emitted = (d.turn.afterSave saved).emitted ∧
      (saved = true → d.db.commit? txn = some d'.db) ∧
      (saved = false → d'.db = d.db ∧ true ∈ d.world.fails) := by
  cases hfails : d.world.fails.headD false with
  | true =>
    rw [hfails] at hchoose
    have hstep : d.turn.step cfg d.db (.fail false) = some (d.db, { d.turn.afterSave false with
        unsettled := d.turn.unsettled ++ [] }) := by
      simp only [Turn.step, hsaving, Option.map_some]
      rfl
    have hnext := next_eq hchoose hstep
    refine ⟨_, false, hnext, rfl, rfl, nofun, fun _ => ⟨rfl, ?_⟩⟩
    cases hlist : d.world.fails with
    | nil => simp [hlist] at hfails
    | cons b bs =>
      obtain rfl : b = true := by simpa [hlist] using hfails
      exact List.mem_cons_self
  | false =>
    rw [hfails] at hchoose
    obtain ⟨db', hcommit⟩ := commit_of_none (saving_of hsaving) hnone
    have hstep : d.turn.step cfg d.db .commit = some (db', d.turn.afterSave true) := by
      simp only [Turn.step, hsaving, Option.map_some, hcommit]
    have hnext := next_eq hchoose hstep
    exact ⟨_, true, hnext, rfl, rfl, fun _ => hcommit, nofun⟩

/-- An error event: nothing, or a partial, is in the database. -/
theorem Full.protocol_error {code message : String} (hd : Full cfg ctx prepared w₀ buffer d)
    (hmessages : ∀ m ∈ db.messagesOf prepared.assistantMessageId, m.contentMeta.isPartial = true)
    (herror : ∀ code' message', .error code' message' ∈ sent prepared w₀ →
      code' = code ∧ message' = message)
    (husage : (∀ fails ∈ w₀.fails, fails = false) →
      ∃ row, db.usageOf prepared.assistantMessageId = [row] ∧ row.status = .error) :
    Protocol cfg ctx prepared w₀ (.error code message ctx.traceId) db
      (d.turn.emitted ++ [.error code message ctx.traceId]) where
  events := by
    rw [hd.emitted, hd.texts, opening]
    simp
  last := Or.inr rfl
  done := by
    constructor
    · exact fun hdone => nomatch hdone
    · rintro ⟨m, hm, -, -, hwhole⟩
      rw [hmessages m hm] at hwhole
      exact nomatch hwhole
  streamError := by
    intro code' message' hmem
    obtain ⟨rfl, rfl⟩ := herror code' message' hmem
    rfl
  usage := by
    intro hfails
    obtain ⟨row, hrow, hstatus⟩ := husage hfails
    refine ⟨row, hrow, ?_⟩
    simp [hstatus, Event.isDone]

/-- `_persist_error` leaves nothing or a partial, and its usage row says so. -/
theorem Full.errorTxn {code message : String} {saved : Bool}
    (hd : Full cfg ctx prepared w₀ buffer d)
    (herror : ∀ code' message', .error code' message' ∈ sent prepared w₀ →
      code' = code ∧ message' = message)
    (hsaved : saved = true → d.db.commit? (d.turn.errorTxn cfg buffer code) = some db)
    (hlost : saved = false → db = d.db ∧ true ∈ d.world.fails) :
    Protocol cfg ctx prepared w₀ (.error code message ctx.traceId) db
      (d.turn.emitted ++ [.error code message ctx.traceId]) := by
  cases saved with
  | true =>
    have hof : (d.turn.errorTxn cfg buffer code).Of prepared.assistantMessageId :=
      hd.id ▸ errorTxn_of buffer code
    obtain ⟨hmessages, -, husage⟩ := commit_own hof (hsaved rfl)
    refine hd.protocol_error ?_ herror
      fun _ => ⟨(d.turn.errorTxn cfg buffer code).usage, ?_, rfl⟩
    · intro m hm
      rw [hmessages, hd.fresh.messages, List.nil_append, Option.mem_toList] at hm
      simp only [Turn.errorTxn] at hm
      split at hm
      · cases hm
      · obtain rfl := Option.some.inj hm
        rfl
    · rw [husage, hd.fresh.usage]
      rfl
  | false =>
    obtain ⟨rfl, hfail⟩ := hlost rfl
    refine hd.protocol_error ?_ herror fun hfails => ?_
    · intro m hm
      rw [hd.fresh.messages] at hm
      cases hm
    · cases hfails true (hd.fails ▸ hfail)

/-- A whole answer. -/
theorem Full.protocol_done {latencyMs : Int} (hd : Full cfg ctx prepared w₀ f.buffer d)
    (hnone : ∀ code message, .error code message ∉ sent prepared w₀)
    (hcommit : d.db.commit? (d.turn.successTxn cfg f latencyMs) = some db) :
    Protocol cfg ctx prepared w₀
      (.done d.turn.id f.stopReason.finishReason f.tokensIn f.tokensOut latencyMs) db
      (d.turn.emitted ++
        [.done d.turn.id f.stopReason.finishReason f.tokensIn f.tokensOut latencyMs]) := by
  have hof : (d.turn.successTxn cfg f latencyMs).Of prepared.assistantMessageId :=
    hd.id ▸ successTxn_of f latencyMs
  obtain ⟨hmessages, -, husage⟩ := commit_own hof hcommit
  have hevents : d.turn.emitted ++
      [.done d.turn.id f.stopReason.finishReason f.tokensIn f.tokensOut latencyMs] =
      .messageStart prepared.userMessageId prepared.assistantMessageId ::
        (citationEvents (adopted cfg prepared w₀.retrieval) ++
          (textsOf (sent prepared w₀)).map Event.delta ++
          [.done d.turn.id f.stopReason.finishReason f.tokensIn f.tokensOut latencyMs]) := by
    rw [hd.emitted, hd.texts, opening]
    simp
  constructor
  · exact hevents
  · exact Or.inl rfl
  · obtain ⟨m, hm⟩ : ∃ m, (d.turn.successTxn cfg f latencyMs).message = some m := ⟨_, rfl⟩
    rw [hm, hd.fresh.messages] at hmessages
    refine iff_of_true rfl ⟨m, by simp [hmessages], ?_⟩
    obtain rfl := Option.some.inj hm
    refine ⟨rfl, ?_, rfl⟩
    rw [hevents, deltasOf_events _ _ _ _ (Or.inl rfl), hd.texts]
  · exact fun code message hmem => absurd hmem (hnone code message)
  · intro _
    refine ⟨(d.turn.successTxn cfg f latencyMs).usage, ?_, iff_of_true rfl rfl⟩
    rw [husage, hd.fresh.usage]
    rfl

theorem stage_saveRetrievalError {code message : String} (hd : Full cfg ctx prepared w₀ [] d)
    (hpc : d.turn.pc = .saveRetrievalError code message) (hsent : sent prepared w₀ = []) :
    Advances cfg ctx prepared w₀ d := by
  have hsaving : d.turn.saving cfg = some (d.turn.errorTxn cfg [] code) := by
    simp only [Turn.saving, hpc]
  obtain ⟨d', saved, hnext, hpc', hemitted, hcommit, hlost⟩ := next_saving hsaving
    (by simp only [World.choose, hpc]) (hd.id ▸ hd.fresh.messages)
  have hafter : d.turn.afterSave saved
      = d.turn.emit (.error code message ctx.traceId) .yieldLast := by
    simp only [Turn.afterSave, hpc, hd.ctx]
  rw [hafter] at hpc' hemitted
  refine ⟨_, hnext, .done (.error code message ctx.traceId) ?_ (Or.inr (Or.inl hpc')), ?_⟩
  · rw [hemitted]
    refine hd.errorTxn ?_ hcommit hlost
    rw [hsent]
    exact fun _ _ hmem => nomatch hmem
  · simp [Drain.measure, hpc, hpc', Turn.emit]

theorem stage_saveStreamError {code message : String} (hd : Full cfg ctx prepared w₀ f.buffer d)
    (hpc : d.turn.pc = .saveStreamError f code message)
    (herror : ∀ code' message', .error code' message' ∈ sent prepared w₀ →
      code' = code ∧ message' = message) :
    Advances cfg ctx prepared w₀ d := by
  have hsaving : d.turn.saving cfg = some (d.turn.errorTxn cfg f.buffer code) := by
    simp only [Turn.saving, hpc]
  obtain ⟨d', saved, hnext, hpc', hemitted, hcommit, hlost⟩ := next_saving hsaving
    (by simp only [World.choose, hpc]) (hd.id ▸ hd.fresh.messages)
  have hafter : d.turn.afterSave saved
      = d.turn.emit (.error code message ctx.traceId) (.yieldStreamError f) := by
    simp only [Turn.afterSave, hpc, hd.ctx]
  rw [hafter] at hpc' hemitted
  refine ⟨_, hnext, .done (.error code message ctx.traceId) ?_ (Or.inl ⟨f, hpc'⟩), ?_⟩
  · rw [hemitted]
    exact hd.errorTxn herror hcommit hlost
  · simp [Drain.measure, hpc, hpc', Turn.emit]

/-- `_persist_success` decides between the two terminal events. -/
theorem stage_saveSuccess {latencyMs : Int} (hd : Full cfg ctx prepared w₀ f.buffer d)
    (hpc : d.turn.pc = .saveSuccess f latencyMs)
    (hnone : ∀ code message, .error code message ∉ sent prepared w₀) :
    Advances cfg ctx prepared w₀ d := by
  have hsaving : d.turn.saving cfg = some (d.turn.successTxn cfg f latencyMs) := by
    simp only [Turn.saving, hpc]
  obtain ⟨d', saved, hnext, hpc', hemitted, hcommit, hlost⟩ := next_saving hsaving
    (by simp only [World.choose, hpc]) (hd.id ▸ hd.fresh.messages)
  have hlast : d'.turn.pc = .yieldLast := by
    rw [hpc']
    cases saved <;> simp [Turn.afterSave, hpc, Turn.emit]
  refine ⟨d', hnext, ?_, by simp [Drain.measure, hpc, hlast]⟩
  cases saved with
  | true =>
    refine .done (.done d.turn.id f.stopReason.finishReason f.tokensIn f.tokensOut latencyMs) ?_
      (Or.inr (Or.inl hlast))
    have hafter : (d.turn.afterSave true).emitted = d.turn.emitted ++
        [.done d.turn.id f.stopReason.finishReason f.tokensIn f.tokensOut latencyMs] := by
      simp only [Turn.afterSave, hpc, if_true, Turn.emit]
    rw [hemitted, hafter]
    exact hd.protocol_done hnone (hcommit rfl)
  | false =>
    refine .done (.error "internal_error" persistFailedMessage ctx.traceId) ?_
      (Or.inr (Or.inl hlast))
    have hafter : (d.turn.afterSave false).emitted = d.turn.emitted ++
        [.error "internal_error" persistFailedMessage ctx.traceId] := by
      simp only [Turn.afterSave, hpc, Turn.emit, hd.ctx]
      simp
    obtain ⟨hdb, hfail⟩ := hlost rfl
    rw [hemitted, hafter, hdb]
    refine hd.protocol_error ?_ (fun code message hmem => absurd hmem (hnone code message))
      fun hfails => ?_
    · intro m hm
      rw [hd.fresh.messages] at hm
      exact nomatch hm
    · exact nomatch hfails true (hd.fails ▸ hfail)

/-- After the terminal event the consumer learns that there is no other. -/
theorem stage_done {terminal : Event}
    (hp : Protocol cfg ctx prepared w₀ terminal d.db d.turn.emitted)
    (hpc : (∃ f, d.turn.pc = .yieldStreamError f) ∨ d.turn.pc = .yieldLast) :
    Advances cfg ctx prepared w₀ d := by
  have hresume : d.turn.resume = some { d.turn with pc := .ended .returned } →
      d.world.choose d.turn = some (.resume, d.world) → d.measure = 1 →
      Advances cfg ctx prepared w₀ d := by
    intro hresume hchoose hmeasure
    have hstep : d.turn.step cfg d.db .resume
        = some (d.db, { d.turn with pc := .ended .returned }) := by
      simp only [Turn.step, hresume, Option.map_some]
    have hnext := next_eq hchoose hstep
    refine ⟨_, hnext, .done terminal hp (Or.inr (Or.inr rfl)), ?_⟩
    rw [hmeasure]
    exact Nat.one_pos
  rcases hpc with ⟨f, hpc⟩ | hpc
  · exact hresume (by simp only [Turn.resume, hpc]) (by simp only [World.choose, hpc])
      (by simp only [Drain.measure, hpc])
  · exact hresume (by simp only [Turn.resume, hpc]) (by simp only [World.choose, hpc])
      (by simp only [Drain.measure, hpc])

/-- **A drained turn advances until it has returned.** -/
theorem stage_next (hcontract : Contract false w₀.events) (hd : Stage cfg ctx prepared w₀ d) :
    Advances cfg ctx prepared w₀ d ∨ (d.turn.pc = .ended .returned ∧
      ∃ terminal, Protocol cfg ctx prepared w₀ terminal d.db d.turn.emitted) := by
  cases hd with
  | start hd hpc => exact Or.inl (stage_start hcontract hd hpc)
  | retrieving hd hpc hrag => exact Or.inl (stage_retrieving hcontract hd hpc hrag)
  | citations hd hpc =>
    exact Or.inl (stage_resume hd (by simp only [World.choose, hpc])
      (by simp only [Turn.resume, hpc]) (by simp only [Drain.measure, hpc]))
  | streaming f hd hpc => exact Or.inl (stage_streaming hd hpc)
  | delta f hd hpc =>
    exact Or.inl (stage_resume hd (by simp only [World.choose, hpc])
      (by simp only [Turn.resume, hpc]) (by simp only [Drain.measure, hpc]))
  | saveRetrievalError code message hd hpc hsent =>
    exact Or.inl (stage_saveRetrievalError hd hpc hsent)
  | saveStreamError f code message hd hpc herror =>
    exact Or.inl (stage_saveStreamError hd hpc herror)
  | saveSuccess f latencyMs hd hpc hnone => exact Or.inl (stage_saveSuccess hd hpc hnone)
  | done terminal hp hpc =>
    rcases hpc with hpc | hpc | hpc
    · exact Or.inl (stage_done hp (Or.inl hpc))
    · exact Or.inl (stage_done hp (Or.inr hpc))
    · exact Or.inr ⟨hpc, terminal, hp⟩

/-! ## 6. The result -/

/-- The turn that has just passed `_prepare_turn`, in its world. -/
def Drain.start (ctx : AuthContext) (conversationId : Id) (prepared : Prepared) (db : Db)
    (w : World) : Drain :=
  ⟨w, db, Turn.start ctx conversationId prepared⟩

/-- **The protocol of a chat turn.**  Whatever the retrieval returns or raises, whatever a
provider sends that keeps its contract, and whichever transactions fail: a drained turn returns,
and what the client has received and what the database has of the turn agree. -/
theorem protocol (cfg : Config) (ctx : AuthContext) (conversationId : Id) (prepared : Prepared)
    (db : Db) (w : World) (hfresh : Fresh db prepared.assistantMessageId)
    (hcontract : Contract false w.events) (n : Nat) (hn : 2 * w.events.length + 6 ≤ n) :
    (drain cfg n (.start ctx conversationId prepared db w)).turn.pc = .ended .returned ∧
      ∃ terminal, Protocol cfg ctx prepared w terminal
        (drain cfg n (.start ctx conversationId prepared db w)).db
        (drain cfg n (.start ctx conversationId prepared db w)).turn.emitted := by
  have hstart : Stage cfg ctx prepared w (.start ctx conversationId prepared db w) :=
    .start ⟨⟨rfl, rfl, hfresh, rfl⟩, rfl, rfl, rfl⟩ rfl
  have hnext : ∀ d d' : Drain, Stage cfg ctx prepared w d → d.next cfg = some d' →
      Stage cfg ctx prepared w d' ∧ d'.measure < d.measure := by
    intro d d' hd h
    rcases stage_next hcontract hd with ⟨d₁, hnext, hstage, hlt⟩ | ⟨hpc, -⟩
    · obtain rfl := Option.some.inj (hnext.symm.trans h)
      exact ⟨hstage, hlt⟩
    · have hnone : d.world.choose d.turn = none := by simp only [World.choose, hpc]
      simp [Drain.next, hnone] at h
  obtain ⟨hstage, hhalt⟩ := drive_halts Drain.measure hnext hstart hn
  rcases stage_next hcontract hstage with ⟨d', hgoes, -⟩ | hdone
  · exact nomatch hgoes.symm.trans hhalt
  · exact hdone

/-- One delta, and then the terminal event. -/
def sampleWorld (last : StreamEvent Text) : World := ⟨.chunks [], [.textDelta ['a'], last], 0, []⟩

theorem protocol_stop : ∃ terminal, Protocol sampleConfig sampleContext samplePrepared
    (sampleWorld (.stop .endTurn)) terminal
    (drain sampleConfig 10 (.start sampleContext 0 samplePrepared .empty
      (sampleWorld (.stop .endTurn)))).db
    (drain sampleConfig 10 (.start sampleContext 0 samplePrepared .empty
      (sampleWorld (.stop .endTurn)))).turn.emitted :=
  (protocol sampleConfig sampleContext 0 samplePrepared .empty (sampleWorld (.stop .endTurn))
    ⟨rfl, rfl, rfl⟩ (.textDelta _ (.stop _ _)) 10 (by decide)).2

/-- **A message with the content of the deltas does not make a done**: a partial is one too. -/
theorem not_done_iff :
    ¬ ∀ (cfg : Config) (ctx : AuthContext) (conversationId : Id) (prepared : Prepared) (db : Db)
      (w : World) (n : Nat), Fresh db prepared.assistantMessageId → Contract false w.events →
      2 * w.events.length + 6 ≤ n →
      ((∃ e ∈ (drain cfg n (.start ctx conversationId prepared db w)).turn.emitted,
          e.isDone = true) ↔
        ∃ m ∈ (drain cfg n (.start ctx conversationId prepared db w)).db.messagesOf
            prepared.assistantMessageId,
          m.role = .assistant ∧ m.content = (deltasOf
            (drain cfg n (.start ctx conversationId prepared db w)).turn.emitted).flatten) := by
  intro h
  have hiff := h sampleConfig sampleContext 0 samplePrepared .empty
    (sampleWorld (.error "transient" "down")) 10 ⟨rfl, rfl, rfl⟩ (.textDelta _ (.error _ _ _))
    (by decide)
  exact absurd (hiff.mpr (by decide)) (by decide)

end AtlasKnowledge.Chat
