/-
# What reaches the client

A response, from the orchestrator's events to the frontend's: through the queue, the frames of
`_format`, the network and `streamChat` (`api/sse.ts`).

* `stream_delivered`: whatever happens to a response, its events are those of the turn, in order;
  the frontend reads the first of them; one that is finished has them all, the last one being the
  only `done` or `error`; and one that has ended leaves no task behind.
-/
import AtlasKnowledge.Chat.Source
import AtlasKnowledge.Sse.StreamChat

namespace AtlasKnowledge.Chat.Source

open Transition

/-! ## 1. The frames -/

section

-- `str` of an id, and `repr` of a score
variable (str : Id → Text) (repr : Rat → Sse.FloatText)

/-- An item of the `citations` event. -/
def itemJson (item : CitationItem) : Sse.Json :=
  .obj [("rank".toList, .int item.rank), ("chunk_id".toList, .str (str item.chunkId)),
    ("document_id".toList, .str (str item.documentId)), ("filename".toList, .str item.filename),
    ("snippet".toList, .str item.snippet), ("score".toList, .float (repr item.score))]

def optionalInt : Option Int → Sse.Json
  | some n => .int n
  | none => .null

/-- `_event`. -/
def appEvent : Event → Sse.AppEvent
  | .messageStart userMessageId assistantMessageId =>
    ⟨.messageStart, [("user_message_id".toList, .str (str userMessageId)),
      ("assistant_message_id".toList, .str (str assistantMessageId))]⟩
  | .citations items => ⟨.citations, [("items".toList, .arr (items.map (itemJson str repr)))]⟩
  | .delta text => ⟨.delta, [("text".toList, .str text)]⟩
  | .done messageId finishReason tokensIn tokensOut latencyMs =>
    ⟨.done, [("message_id".toList, .str (str messageId)),
      ("finish_reason".toList, .str finishReason.toList),
      ("tokens_in".toList, optionalInt tokensIn), ("tokens_out".toList, optionalInt tokensOut),
      ("latency_ms".toList, .int latencyMs)]⟩
  | .error code message traceId =>
    ⟨.error, [("code".toList, .str code.toList), ("message".toList, .str message.toList),
      ("trace_id".toList, .str traceId.toList)]⟩

def frame : Option Event → Sse.Item
  | some ev => .event (appEvent str repr ev)
  | none => .ping

/-- The event, as `streamChat` yields it. -/
def clientEvent (ev : Event) : Sse.SseEvent :=
  ⟨(appEvent str repr ev).event.text, (appEvent str repr ev).dataText⟩

/-- The bytes of what has been yielded. -/
def Response.body (r : Response) : Bytes := Sse.wire (r.items.map (frame str repr))

theorem eventsOf_frames (items : List (Option Event)) :
    Sse.eventsOf (items.map (frame str repr)) = (items.filterMap id).map (appEvent str repr) := by
  induction items with
  | nil => rfl
  | cons item items ih =>
    cases item with
    | none => simpa [Sse.eventsOf, frame] using ih
    | some ev => simpa [Sse.eventsOf, frame] using ih

/-- What the frontend has yielded does not change when more of the body comes. -/
theorem readChunks_front (d : Sse.TextDecoder) (buffer : Text) (chunks more : List Bytes) :
    Sse.readChunks d buffer chunks <+: Sse.readChunks d buffer (chunks ++ more) := by
  induction chunks generalizing d buffer with
  | nil => exact List.nil_prefix
  | cons value values ih => exact (List.prefix_append_right_inj _).mpr (ih _ _)

/-- All of a body gives all of its events. -/
theorem streamChat_body (r : Response) (chunks : List Bytes)
    (h : chunks.flatten = r.body str repr) :
    Sse.streamChat chunks = r.events.map (clientEvent str repr) := by
  rw [Sse.streamChat_frames _ _ h, Sse.parseFrame_bodies, eventsOf_frames, List.map_map]
  rfl

/-- Wherever the body is cut off, the frontend yields the first of its events. -/
theorem streamChat_cut (r : Response) (chunks : List Bytes)
    (h : chunks.flatten <+: r.body str repr) :
    Sse.streamChat chunks <+: r.events.map (clientEvent str repr) := by
  obtain ⟨rest, hrest⟩ := h
  rw [← streamChat_body str repr r (chunks ++ [rest]) (by simpa using hrest)]
  exact readChunks_front _ _ _ _

end

/-! ## 2. The turn of a response -/

variable {cfg : Config} {db db' : Db} {r r' : Response} {l : Label}

theorem run_resumed (cfg : Config) (db : Db) (t : Turn) :
    ∃ cs, run (soloStep cfg) (db, t) cs = some (db, resumed t) := by
  unfold resumed
  split
  · cases hresume : t.resume with
    | none => exact ⟨[], rfl⟩
    | some u => exact ⟨[.resume], by simp [soloStep, Turn.step, hresume]⟩
  · exact ⟨[], rfl⟩

/-- A step after which the turn is the one before. -/
theorem turn_kept {o : Option Response} (hsame : ∀ r', o = some r' → r'.turn = r.turn)
    (h : (o.map fun r => (db, r)) = some (db', r')) :
    ∃ cs, run (soloStep cfg) (db, r.turn) cs = some (db', r'.turn) := by
  obtain ⟨r₁, hr₁, heq⟩ := Option.map_eq_some_iff.mp h
  obtain ⟨rfl, rfl⟩ := Prod.mk.inj heq
  exact ⟨[], by rw [hsame r₁ hr₁]; rfl⟩

theorem cancelTask_turn (r : Response) : r.cancelTask.turn = r.turn := by
  unfold Response.cancelTask
  split <;> rfl

theorem next_turn (h : r.next = some r') : r'.turn = r.turn := by
  unfold Response.next at h
  split at h <;> cases h <;> rfl

theorem take_turn (h : r.take = some r') : r'.turn = r.turn := by
  unfold Response.take at h
  split at h <;> cases h
  · rfl
  · exact cancelTask_turn _

theorem timeout_turn (h : r.timeout = some r') : r'.turn = r.turn := by
  unfold Response.timeout at h
  split at h <;> cases h
  rfl

theorem close_turn (h : r.close = some r') : r'.turn = r.turn := by
  unfold Response.close at h
  split at h <;> cases h
  · rfl
  · exact cancelTask_turn _

theorem cancel_turn (h : r.cancel = some r') : r'.turn = r.turn := by
  unfold Response.cancel at h
  split at h <;> cases h <;> exact cancelTask_turn _

theorem join_turn (h : r.join = some r') : r'.turn = r.turn := by
  unfold Response.join at h
  split at h <;> cases h
  rfl

/-- **A response drives its turn by the turn's own steps.** -/
theorem turn_step (h : step cfg (db, r) l = some (db', r')) :
    ∃ cs, run (soloStep cfg) (db, r.turn) cs = some (db', r'.turn) := by
  cases l with
  | next => exact turn_kept (fun _ => next_turn) h
  | take => exact turn_kept (fun _ => take_turn) h
  | timeout => exact turn_kept (fun _ => timeout_turn) h
  | close => exact turn_kept (fun _ => close_turn) h
  | cancel => exact turn_kept (fun _ => cancel_turn) h
  | join => exact turn_kept (fun _ => join_turn) h
  | begin =>
    obtain ⟨r₁, hr₁, heq⟩ := Option.map_eq_some_iff.mp h
    obtain ⟨rfl, rfl⟩ := Prod.mk.inj heq
    unfold Response.begin at hr₁
    split at hr₁
    · obtain ⟨t, ht, rfl⟩ := Option.map_eq_some_iff.mp hr₁
      obtain ⟨cs, hcs⟩ := run_resumed cfg db t
      refine ⟨.resume :: cs, ?_⟩
      simp only [run_cons, soloStep, Turn.step, ht, Option.map_some, Option.bind_some]
      exact hcs
    · cases hr₁
  | produce c =>
    simp only [step] at h
    split at h
    · obtain ⟨⟨db₁, t⟩, ht, heq⟩ := Option.map_eq_some_iff.mp h
      obtain ⟨rfl, rfl⟩ := Prod.mk.inj heq
      obtain ⟨cs, hcs⟩ := run_resumed cfg db₁ t
      refine ⟨c :: cs, ?_⟩
      rw [run_cons, soloStep, ht]
      exact hcs
    · cases h
  | deliver =>
    obtain ⟨r₁, hr₁, heq⟩ := Option.map_eq_some_iff.mp h
    obtain ⟨rfl, rfl⟩ := Prod.mk.inj heq
    unfold Response.deliver at hr₁
    split at hr₁
    · split at hr₁
      · cases hr₁
        exact ⟨[], rfl⟩
      · obtain ⟨t, ht, rfl⟩ := Option.map_eq_some_iff.mp hr₁
        exact ⟨[.cancel], by simp [soloStep, Turn.step, ht]⟩
      · cases hr₁
    · cases hr₁
  | finalize =>
    obtain ⟨r₁, hr₁, heq⟩ := Option.map_eq_some_iff.mp h
    obtain ⟨rfl, rfl⟩ := Prod.mk.inj heq
    unfold Response.finalize at hr₁
    split at hr₁
    · obtain ⟨t, ht, rfl⟩ := Option.map_eq_some_iff.mp hr₁
      exact ⟨[.close], by simp [soloStep, Turn.step, ht]⟩
    · cases hr₁
  | outside c =>
    simp only [step] at h
    split at h
    · obtain ⟨⟨db₁, t⟩, ht, heq⟩ := Option.map_eq_some_iff.mp h
      obtain ⟨rfl, rfl⟩ := Prod.mk.inj heq
      exact ⟨[c], by simp [soloStep, ht]⟩
    · cases h

/-- So does a whole run. -/
theorem turn_run {ls : List Label} {s s' : Db × Response} (h : run (step cfg) s ls = some s') :
    ∃ cs, run (soloStep cfg) (s.1, s.2.turn) cs = some (s'.1, s'.2.turn) := by
  induction ls generalizing s with
  | nil =>
    obtain rfl := Option.some.inj h
    exact ⟨[], rfl⟩
  | cons l ls ih =>
    obtain ⟨s₁, hl, hrest⟩ := Option.bind_eq_some_iff.mp h
    obtain ⟨cs, hcs⟩ := turn_step hl
    obtain ⟨cs', hcs'⟩ := ih hrest
    exact ⟨cs ++ cs', run_append_eq_some.mpr ⟨_, hcs, hcs'⟩⟩

/-! ## 3. The result -/

/-- What holds of a response at any time. -/
structure Delivered (cfg : Config) (turn₀ : Db × Turn) (db : Db) (r : Response) : Prop where
  /-- The turn takes steps of its own only. -/
  turn : ∃ cs, run (soloStep cfg) turn₀ cs = some (db, r.turn)
  /-- The events come in their order, none is left out and none comes twice. -/
  order : r.events <+: r.turn.emitted
  /-- The frontend reads the first of them, wherever the network cuts the body and wherever it
  breaks off. -/
  client : ∀ str repr chunks, chunks.flatten <+: r.body str repr →
    Sse.streamChat chunks <+: r.turn.emitted.map (clientEvent str repr)
  /-- A response that is finished has all events of a turn that has returned. -/
  finished : r.place = .ended .finished →
    r.turn.pc = .ended .returned ∧ Complete r.turn.emitted ∧
      ∀ str repr chunks, chunks.flatten = r.body str repr →
        Sse.streamChat chunks = r.turn.emitted.map (clientEvent str repr)
  /-- `source` does not wait for a task that has come to its end. -/
  awake : r.place = .waiting → r.producer = .done → r.take.isSome
  /-- When the client has gone away, the next step of the task is its last one. -/
  leaves : ∀ exit, r.place = .joining exit →
    r.join.isSome ∨ ∃ r₁, r.deliver cfg = some r₁ ∧ r₁.join.isSome
  /-- A response that has ended leaves no task and no generator behind. -/
  ended : r.place.isEnded = true → (r.producer = .absent ∨ r.producer = .done) ∧
    (r.turn.pc.isEnded = true ∨ ∃ r₁, r.finalize = some r₁ ∧ r₁.turn.pc.isEnded = true)

theorem Response.Holds.order {rest : List (Option Event)} (h : r.Holds rest) :
    r.events <+: r.turn.emitted := by
  obtain ⟨evs, -, hemitted⟩ := h
  exact ⟨evs, hemitted⟩

theorem Response.Taken.order (h : r.Taken) : r.events <+: r.turn.emitted :=
  h.events ▸ List.prefix_rfl

theorem Response.Fresh.order (h : r.Fresh) : r.events <+: r.turn.emitted := by
  rw [Response.events, h.items]
  exact List.nil_prefix

theorem Response.Ok.order (h : r.Ok) : r.events <+: r.turn.emitted := by
  cases hplace : r.place with
  | created => exact (h.of_place hplace).1.order
  | yielding => exact (h.of_place hplace).elim (fun h => h.holds.order) fun h => h.holds.order
  | waiting => exact (h.of_place hplace).elim (fun h => h.holds.order) fun h => h.holds.order
  | joining exit =>
    rcases h.of_place hplace with ⟨-, hleaves | hcut⟩ | ⟨-, htaken⟩
    · exact hleaves.holds.order
    · exact hcut.holds.elim fun _ => Response.Holds.order
    · exact htaken.order
  | ended exit =>
    rcases h.of_place hplace with ⟨-, hcut⟩ | ⟨-, hfresh, -⟩ | ⟨-, htaken, -⟩
    · exact hcut.holds.elim fun _ => Response.Holds.order
    · exact hfresh.order
    · exact htaken.order

theorem Response.Ok.finished (h : r.Ok) (hplace : r.place = .ended .finished) :
    r.turn.pc = .ended .returned ∧ Complete r.turn.emitted ∧ r.events = r.turn.emitted := by
  rcases h.of_place hplace with ⟨hexit | hexit, -⟩ | ⟨hexit, -⟩ | ⟨-, htaken, hpc⟩
  · cases hexit
  · cases hexit
  · cases hexit
  · refine ⟨hpc, ?_, htaken.events⟩
    exact htaken.halted.elim And.right fun h => by cases hpc.symm.trans h.1

/-- The sentinel is there to be taken. -/
theorem Response.Ok.awake (h : r.Ok) (hplace : r.place = .waiting) (hdone : r.producer = .done) :
    r.take.isSome := by
  rcases h.of_place hplace with hflows | hdrains
  · exact absurd hdone hflows.runs.not_done
  · obtain ⟨evs, hqueue, -⟩ := hdrains.holds
    unfold Response.take
    rw [hplace, hqueue]
    cases evs <;> rfl

theorem join_isSome {exit : Exit} (hplace : r.place = .joining exit) (hdone : r.producer = .done) :
    r.join.isSome := by
  unfold Response.join
  rw [hplace, hdone]
  rfl

theorem Response.Ok.joins (h : r.Ok) {exit : Exit} (hplace : r.place = .joining exit) :
    r.join.isSome ∨ ∃ r₁, r.deliver cfg = some r₁ ∧ r₁.join.isSome := by
  rcases h.of_place hplace with ⟨-, hleaves | hcut⟩ | ⟨-, htaken⟩
  · right
    unfold Response.deliver
    rw [if_pos hleaves.cancelling]
    rcases hleaves.runs.1 with ⟨hproducer, -⟩ | ⟨hproducer, hpc⟩
    · rw [hproducer]
      exact ⟨_, rfl, join_isSome hplace rfl⟩
    · have hcancel : r.turn.cancel cfg = some _ :=
        if_neg (by rw [not_ended_of_suspended hpc]; exact Bool.false_ne_true)
      rw [hproducer, hcancel]
      exact ⟨_, rfl, join_isSome hplace rfl⟩
  · exact .inl (join_isSome hplace hcut.producer)
  · exact .inl (join_isSome hplace htaken.producer)

theorem finalize_of_start (hplace : r.place.isEnded = true)
    (hpc : r.turn.pc = .yieldStart ∨ r.turn.pc.isEnded = true) :
    r.turn.pc.isEnded = true ∨ ∃ r₁, r.finalize = some r₁ ∧ r₁.turn.pc.isEnded = true := by
  rcases hpc with hpc | hpc
  · right
    have hclose : r.turn.close = some { r.turn with pc := .ended .generatorExit } := by
      unfold Turn.close
      rw [hpc]
      rfl
    unfold Response.finalize
    rw [if_pos hplace, hclose]
    exact ⟨_, rfl, rfl⟩
  · exact .inl hpc

theorem Response.Ok.startOrEnded (h : r.Ok) (hended : r.place.isEnded = true) :
    r.turn.pc = .yieldStart ∨ r.turn.pc.isEnded = true := by
  obtain ⟨exit, hplace⟩ := exists_exit hended
  rcases h.of_place hplace with ⟨-, hcut⟩ | ⟨-, hfresh, hpc⟩ | ⟨-, htaken, -⟩
  · exact hcut.pc
  · exact hpc
  · exact htaken.cut.pc

theorem Response.Ok.ended (h : r.Ok) (hended : r.place.isEnded = true) :
    r.producer = .absent ∨ r.producer = .done := by
  obtain ⟨exit, hplace⟩ := exists_exit hended
  rcases h.of_place hplace with ⟨-, hcut⟩ | ⟨-, hfresh, -⟩ | ⟨-, htaken, -⟩
  · exact .inr hcut.producer
  · exact .inl hfresh.producer
  · exact .inr htaken.producer

theorem ok_start (ctx : AuthContext) (conversationId : Id) (prepared : Prepared) :
    (Response.start ctx conversationId prepared).Ok :=
  ⟨⟨rfl, rfl, rfl, rfl, rfl, quiet_singleton rfl⟩, rfl⟩

/-- **The events come to the client.**  Whatever the provider and the database do, whenever the
queue stays empty too long, the client stops asking or goes away, or `StreamingResponse` cancels
the response: what the frontend reads are the first events of the turn.  It reads all of them when
the response is finished, and then the last one is the only `done` or `error`. -/
theorem stream_delivered (cfg : Config) (db₀ : Db) (ctx : AuthContext) (conversationId : Id)
    (prepared : Prepared) {ls : List Label} {db : Db} {r : Response}
    (h : run (step cfg) (db₀, .start ctx conversationId prepared) ls = some (db, r)) :
    Delivered cfg (db₀, .start ctx conversationId prepared) db r := by
  have hstep : ∀ (s : Db × Response) l s', s.2.Ok → step cfg s l = some s' → s'.2.Ok := by
    rintro ⟨db, r⟩ l s' hs hstep
    exact ok_step hs hstep
  have hok : r.Ok := run_invariant_of_step hstep (ok_start ctx conversationId prepared) h
  refine ⟨turn_run h, hok.order, ?_, ?_, hok.awake, fun _ => hok.joins,
    fun hended => ⟨hok.ended hended, finalize_of_start hended (hok.startOrEnded hended)⟩⟩
  · intro str repr chunks hchunks
    exact (streamChat_cut str repr r chunks hchunks).trans (hok.order.map _)
  · intro hplace
    obtain ⟨hpc, hcomplete, hevents⟩ := hok.finished hplace
    refine ⟨hpc, hcomplete, fun str repr chunks hchunks => ?_⟩
    rw [streamChat_body str repr r chunks hchunks, hevents]

/-- One delta, a heartbeat, and the end. -/
def finishedRun : List Label :=
  [.next, .begin, .produce (.provider (.event (.textDelta ['a'])) 0), .next, .take, .next, .timeout,
    .produce (.provider (.event (.stop .endTurn)) 7), .produce .commit, .next, .take, .next, .take,
    .join]

theorem stream_delivered_finished :
    ∃ s, run (step sampleConfig) (.empty, .start sampleContext 0 samplePrepared) finishedRun =
        some s ∧
      s.2.items = [some (.messageStart 0 1), some (.delta ['a']), none,
        some (.done 1 "stop" none none 7)] ∧
      Complete s.2.turn.emitted := by
  have hend : (run (step sampleConfig) (.empty, .start sampleContext 0 samplePrepared)
      finishedRun).map (fun s => (s.2.items, s.2.place)) = some ([some (.messageStart 0 1),
        some (.delta ['a']), none, some (.done 1 "stop" none none 7)], .ended .finished) := by
    decide
  obtain ⟨s, hs, heq⟩ := Option.map_eq_some_iff.mp hend
  obtain ⟨hitems, hplace⟩ := Prod.mk.inj heq
  exact ⟨s, hs, hitems, ((stream_delivered _ _ _ _ _ hs).finished hplace).2.1⟩

end AtlasKnowledge.Chat.Source
