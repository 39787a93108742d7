/-
# The response of `send_message`

`source` (`api/routers/chat.py`) around a turn: a task, `produce`, iterates over the orchestrator's
generator and puts its events on a queue; `source` takes them off and yields their frames, and a
heartbeat whenever the queue has stayed empty too long.  `StreamingResponse` asks for the frames.
When the client goes away it closes `source` at a `yield`, or cancels it at an `await`.

`asyncio.Queue` has no bound here, so `put` never suspends: the generator is resumed at once.  A
cancellation of the task reaches it at its next suspension, or before its first step; then `produce`
has not entered its `try` block and puts no sentinel.

* `step`: one step of the response, of its task, or of what is around the turn;
* `Ok`: where the events are, at every place of `source`;
* `ok_step`: every step keeps it.
-/
import AtlasKnowledge.Chat.Rows
import AtlasKnowledge.Lib.Transition

namespace AtlasKnowledge.Chat.Source

open Transition

/-! ## 1. The response -/

/-- How `source` has ended. -/
inductive Exit where
  | finished | closed | cancelled | raised
  deriving DecidableEq, Repr

/-- Where `source` is suspended. -/
inductive Place where
  /-- It has not been asked for anything. -/
  | created
  | yielding
  /-- `await asyncio.wait_for(queue.get(), ..)`. -/
  | waiting
  /-- `await task`, in the `finally` block. -/
  | joining (exit : Exit)
  | ended (exit : Exit)
  deriving DecidableEq, Repr

/-- The task of `produce`. -/
inductive Producer where
  | absent
  /-- `create_task`, before the first step. -/
  | created
  | running
  | done
  deriving DecidableEq, Repr

/-- An item is an event, or `none` for a heartbeat; on the queue `none` is the sentinel. -/
structure Response where
  first : Event
  turn : Turn
  producer : Producer := .absent
  /-- `task.cancel()` has been called, and the task has not run since. -/
  cancelling : Bool := false
  queue : List (Option Event) := []
  place : Place := .created
  items : List (Option Event) := []
  deriving DecidableEq, Repr

/-- The response, once `agen.__anext__()` has returned the first event. -/
def Response.start (ctx : AuthContext) (conversationId : Id) (prepared : Prepared) : Response where
  first := .messageStart prepared.userMessageId prepared.assistantMessageId
  turn := Turn.start ctx conversationId prepared

/-- The events among the items. -/
def Response.events (r : Response) : List Event := r.items.filterMap id

/-- `task.cancel()`. -/
def Response.cancelTask (r : Response) : Response :=
  if r.producer = .done then r else { r with cancelling := true }

/-- The generator is resumed behind its `yield`. -/
def resumed (t : Turn) : Turn := if t.pc.isYield then t.resume.getD t else t

/-- The loop of `produce`, after the generator has come to `t`: an event goes to the queue and the
generator is resumed; at its end comes the sentinel. -/
def Response.pump (r : Response) (t : Turn) : Response :=
  { r with
    turn := resumed t
    producer := if (resumed t).pc.isEnded then .done else .running
    queue := r.queue ++ (t.emitted.drop r.turn.emitted.length).map some ++
      if (resumed t).pc.isEnded then [none] else [] }

/-! ## 2. The steps -/

/-- What happens next to the response. -/
inductive Label where
  /-- `StreamingResponse` asks for the next frame. -/
  | next
  /-- `queue.get` returns. -/
  | take
  | timeout
  /-- `aclose`, by `StreamingResponse` or by the event loop. -/
  | close
  /-- The task of the response is cancelled. -/
  | cancel
  /-- `await task` returns or raises. -/
  | join
  /-- The first step of `produce`. -/
  | begin
  | produce (c : Choice)
  /-- The cancellation reaches `produce`. -/
  | deliver
  /-- The event loop closes a generator that nobody holds any more. -/
  | finalize
  /-- The background tasks and the database. -/
  | outside (c : Choice)
  deriving DecidableEq, Repr

/-- What `produce` may be awaiting. -/
def isAwaited : Choice → Bool
  | .retrieved _ => true
  | .provider _ _ => true
  | .commit => true
  | .fail _ => true
  | _ => false

/-- A step of the background tasks or of the database. -/
def isOutside : Choice → Bool
  | .background _ => true
  | .backgroundFail _ _ => true
  | .settle _ _ => true
  | _ => false

/-- The consumer asks for the next frame. -/
def Response.next (r : Response) : Option Response :=
  match r.place with
  | .created =>
    some { r with place := .yielding, producer := .created, items := r.items ++ [some r.first] }
  | .yielding => some { r with place := .waiting }
  | _ => none

/-- `queue.get` returns. -/
def Response.take (r : Response) : Option Response :=
  match r.place, r.queue with
  | .waiting, some ev :: queue =>
    some { r with place := .yielding, queue := queue, items := r.items ++ [some ev] }
  | .waiting, none :: queue =>
    some { r with place := .joining .finished, queue := queue }.cancelTask
  | _, _ => none

/-- The wait runs out: a heartbeat. -/
def Response.timeout (r : Response) : Option Response :=
  match r.place with
  | .waiting => some { r with place := .yielding, items := r.items ++ [none] }
  | _ => none

/-- A generator that has not been started ends at once. -/
def Response.close (r : Response) : Option Response :=
  match r.place with
  | .created => some { r with place := .ended .closed }
  | .yielding => some { r with place := .joining .closed }.cancelTask
  | _ => none

/-- A cancellation at `await task` goes through to the task. -/
def Response.cancel (r : Response) : Option Response :=
  match r.place with
  | .waiting => some { r with place := .joining .cancelled }.cancelTask
  | .joining _ => some r.cancelTask
  | _ => none

/-- The `CancelledError` of the task is suppressed; another exception is raised. -/
def Response.join (r : Response) : Option Response :=
  match r.place, r.producer with
  | .joining exit, .done =>
    some { r with place := .ended (if r.turn.pc = .ended .raised then .raised else exit) }
  | _, _ => none

/-- The first step of `produce`. -/
def Response.begin (r : Response) : Option Response :=
  if r.producer = .created ∧ r.cancelling = false then r.turn.resume.map r.pump else none

/-- The cancellation reaches `produce`. -/
def Response.deliver (cfg : Config) (r : Response) : Option Response :=
  if r.cancelling then
    match r.producer with
    | .created => some { r with producer := .done, cancelling := false }
    | .running => (r.turn.cancel cfg).map fun t =>
      { r with turn := t, producer := .done, cancelling := false, queue := r.queue ++ [none] }
    | _ => none
  else none

/-- The generator is over. -/
def Place.isEnded : Place → Bool
  | .ended _ => true
  | _ => false

def Response.finalize (r : Response) : Option Response :=
  if r.place.isEnded then r.turn.close.map fun t => { r with turn := t } else none

/-- One step of the response. -/
def step (cfg : Config) (s : Db × Response) : Label → Option (Db × Response)
  | .next => s.2.next.map fun r => (s.1, r)
  | .take => s.2.take.map fun r => (s.1, r)
  | .timeout => s.2.timeout.map fun r => (s.1, r)
  | .close => s.2.close.map fun r => (s.1, r)
  | .cancel => s.2.cancel.map fun r => (s.1, r)
  | .join => s.2.join.map fun r => (s.1, r)
  | .begin => s.2.begin.map fun r => (s.1, r)
  | .produce c =>
    if s.2.producer = .running ∧ s.2.cancelling = false ∧ isAwaited c then
      (s.2.turn.step cfg s.1 c).map fun (db, t) => (db, s.2.pump t)
    else none
  | .deliver => (s.2.deliver cfg).map fun r => (s.1, r)
  | .finalize => s.2.finalize.map fun r => (s.1, r)
  | .outside c =>
    if isOutside c then
      (s.2.turn.step cfg s.1 c).map fun (db, t) => (db, { s.2 with turn := t })
    else none

/-! ## 3. The generator inside of `produce` -/

/-- The generator is suspended at an `await` that `produce` can reach. -/
def isSuspended : Pc → Bool
  | .retrieving => true
  | .streaming _ => true
  | .saveRetrievalError _ _ => true
  | .saveStreamError _ _ _ => true
  | .saveSuccess _ _ => true
  | _ => false

/-- `done` or `error`. -/
def isTerminal : Event → Bool
  | .done _ _ _ _ _ => true
  | .error _ _ _ => true
  | _ => false

/-- Nothing terminal has been emitted. -/
def Quiet (events : List Event) : Prop := ∀ e ∈ events, isTerminal e = false

/-- The last event is the only terminal one. -/
def Complete (events : List Event) : Prop :=
  ∃ front last, events = front ++ [last] ∧ Quiet front ∧ isTerminal last = true

/-- The generator has come to its end by itself. -/
def Halted (t : Turn) : Prop :=
  (t.pc = .ended .returned ∧ Complete t.emitted) ∨ (t.pc = .ended .raised ∧ Quiet t.emitted)

/-- Where the generator is, whenever `produce` does not run. -/
def Rests (t : Turn) : Prop := (isSuspended t.pc = true ∧ Quiet t.emitted) ∨ Halted t

variable {cfg : Config} {db db' : Db} {t t' : Turn} {c : Choice} {e : Event}

theorem Quiet.append {a b : List Event} (ha : Quiet a) (hb : Quiet b) : Quiet (a ++ b) := by
  intro e he
  exact (List.mem_append.mp he).elim (ha e) (hb e)

theorem quiet_singleton (h : isTerminal e = false) : Quiet [e] := by
  intro e' he'
  obtain rfl := List.mem_singleton.mp he'
  exact h

theorem resumed_of_await (h : t.pc.isYield = false) : resumed t = t := by
  rw [resumed, h]
  rfl

/-- Resuming emits nothing. -/
theorem resumed_emitted (t : Turn) : (resumed t).emitted = t.emitted := by
  unfold resumed
  split
  · cases hresume : t.resume with
    | none => rfl
    | some u =>
      obtain ⟨pc, rfl⟩ := resume_eq hresume
      rfl
  · rfl

theorem resumed_of_yield {u : Turn} (h : t.pc.isYield = true) (hu : t.resume = some u) :
    resumed t = u := by
  rw [resumed, h, hu]
  rfl

/-- The generator rests behind a `yield`: of an event in between, or of the last one. -/
theorem rests_emit {pc : Pc} {u : Turn} (hquiet : Quiet t.emitted) (hyield : pc.isYield = true)
    (hu : (t.emit e pc).resume = some u)
    (hnext : isTerminal e = false ∧ isSuspended u.pc = true ∨
      isTerminal e = true ∧ u.pc = .ended .returned) :
    Rests (resumed (t.emit e pc)) := by
  have hresumed := resumed_of_yield (t := t.emit e pc) hyield hu
  have hemitted := resumed_emitted (t.emit e pc)
  rw [hresumed] at hemitted ⊢
  rcases hnext with ⟨he, hpc⟩ | ⟨he, hpc⟩
  · refine .inl ⟨hpc, ?_⟩
    rw [hemitted]
    exact hquiet.append (quiet_singleton he)
  · exact .inr (.inl ⟨hpc, t.emitted, e, hemitted, hquiet, he⟩)

theorem rests_await (hpc : isSuspended t.pc = true) (hquiet : Quiet t.emitted) :
    Rests (resumed t) := by
  have hyield : t.pc.isYield = false := by
    cases hcase : t.pc <;> simp_all [isSuspended, Pc.isYield]
  rw [resumed_of_await hyield]
  exact .inl ⟨hpc, hquiet⟩

theorem rests_raised (hpc : t.pc = .ended .raised) (hquiet : Quiet t.emitted) :
    Rests (resumed t) := by
  rw [resumed_of_await (by rw [hpc]; rfl)]
  exact .inr (.inr ⟨hpc, hquiet⟩)

/-- A step from `t`: at most one event is emitted, and the generator rests behind it. -/
structure Produces (t t' : Turn) : Prop where
  emitted : t.emitted <+: t'.emitted
  rests : Rests (resumed t')

theorem produces_retrieved {r : Retrieval} (hquiet : Quiet t.emitted)
    (h : t.retrieved cfg r = some t') : Produces t t' := by
  unfold Turn.retrieved at h
  split at h
  · cases r with
    | chunks chunks =>
      simp only at h
      split at h <;> obtain rfl := Option.some.inj h
      · exact ⟨List.prefix_rfl, rests_await rfl hquiet⟩
      · exact ⟨List.prefix_append _ _, rests_emit hquiet rfl rfl (.inl ⟨rfl, rfl⟩)⟩
    | embeddingError code message =>
      obtain rfl := Option.some.inj h
      exact ⟨List.prefix_rfl, rests_await rfl hquiet⟩
    | otherException =>
      obtain rfl := Option.some.inj h
      exact ⟨List.prefix_rfl, rests_await rfl hquiet⟩
  · cases h

theorem produces_provided {step : ProviderStep} {latencyMs : Int} (hquiet : Quiet t.emitted)
    (h : t.provided step latencyMs = some t') : Produces t t' := by
  unfold Turn.provided at h
  split at h
  · cases step with
    | event ev =>
      cases ev with
      | textDelta text =>
        obtain rfl := Option.some.inj h
        exact ⟨List.prefix_append _ _, rests_emit hquiet rfl rfl (.inl ⟨rfl, rfl⟩)⟩
      | _ =>
        obtain rfl := Option.some.inj h
        exact ⟨List.prefix_rfl, rests_await rfl hquiet⟩
    | finished =>
      obtain rfl := Option.some.inj h
      exact ⟨List.prefix_rfl, rests_await rfl hquiet⟩
    | raised =>
      obtain rfl := Option.some.inj h
      exact ⟨List.prefix_rfl, rests_raised rfl hquiet⟩
  · cases h

theorem resumed_unsettled (t : Turn) (txns : List Txn) :
    resumed { t with unsettled := txns } = { resumed t with unsettled := txns } := by
  obtain ⟨ctx, conversationId, turn, pc, emitted, background, unsettled, titles⟩ := t
  cases pc <;> rfl

theorem Produces.unsettled (h : Produces t t') (txns : List Txn) :
    Produces t { t' with unsettled := txns } where
  emitted := h.emitted
  rests := by
    rw [resumed_unsettled]
    exact h.rests

/-- Behind a saving there is nothing but the last event. -/
theorem produces_afterSave {txn : Txn} (saved : Bool) (hpc : isSuspended t.pc = true)
    (hquiet : Quiet t.emitted) (h : t.saving cfg = some txn) : Produces t (t.afterSave saved) := by
  unfold Turn.afterSave
  cases hcase : t.pc with
  | saveRetrievalError code message =>
    exact ⟨List.prefix_append _ _, rests_emit hquiet rfl rfl (.inr ⟨rfl, rfl⟩)⟩
  | saveStreamError f code message =>
    exact ⟨List.prefix_append _ _, rests_emit hquiet rfl rfl (.inr ⟨rfl, rfl⟩)⟩
  | saveSuccess f latencyMs =>
    cases saved with
    | false => exact ⟨List.prefix_append _ _, rests_emit hquiet rfl rfl (.inr ⟨rfl, rfl⟩)⟩
    | true =>
      refine ⟨List.prefix_append _ _, .inr (.inl ⟨rfl, ?_⟩)⟩
      exact ⟨t.emitted, _, rfl, hquiet, rfl⟩
  | closing f => simp [hcase, isSuspended] at hpc
  | _ => simp [Turn.saving, hcase] at h

/-- **What `produce` awaits.**  Whatever comes back, the generator emits at most one more event and
rests again, or it has come to its end. -/
theorem produces_step (hpc : isSuspended t.pc = true) (hquiet : Quiet t.emitted)
    (hc : isAwaited c = true) (h : t.step cfg db c = some (db', t')) : Produces t t' := by
  cases c with
  | retrieved r => exact produces_retrieved hquiet (step_moved h).2
  | provider step latencyMs => exact produces_provided hquiet (step_moved h).2
  | commit =>
    obtain ⟨txn, htxn, heq⟩ := Option.map_eq_some_iff.mp h
    split at heq <;> obtain ⟨-, rfl⟩ := Prod.mk.inj heq <;>
      exact produces_afterSave _ hpc hquiet htxn
  | fail lost =>
    obtain ⟨txn, htxn, heq⟩ := Option.map_eq_some_iff.mp h
    obtain ⟨-, rfl⟩ := Prod.mk.inj heq
    exact (produces_afterSave false hpc hquiet htxn).unsettled _
  | _ => cases hc

/-! ## 4. Where the events are -/

variable {r r' : Response} {rest : List (Option Event)}

/-- The queue holds the events that have not been yielded, in their order, and then `rest`. -/
def Response.Holds (r : Response) (rest : List (Option Event)) : Prop :=
  ∃ evs, r.queue = evs.map some ++ rest ∧ r.events ++ evs = r.turn.emitted

/-- The task has not come to its end. -/
def Response.Runs (r : Response) : Prop :=
  (r.producer = .created ∧ r.turn.pc = .yieldStart ∨
    r.producer = .running ∧ isSuspended r.turn.pc = true) ∧ Quiet r.turn.emitted

/-- Nothing has been asked of the response. -/
structure Response.Fresh (r : Response) : Prop where
  producer : r.producer = .absent
  cancelling : r.cancelling = false
  queue : r.queue = []
  items : r.items = []
  emitted : r.turn.emitted = [r.first]
  quiet : Quiet r.turn.emitted

/-- The loop of `source` goes on, and so does the task. -/
structure Response.Flows (r : Response) : Prop where
  runs : r.Runs
  cancelling : r.cancelling = false
  holds : r.Holds []

/-- The loop goes on, and the sentinel is on the queue. -/
structure Response.Drains (r : Response) : Prop where
  producer : r.producer = .done
  cancelling : r.cancelling = false
  holds : r.Holds [none]
  halted : Halted r.turn

/-- The loop has been left, and the task has not heard of it. -/
structure Response.Leaves (r : Response) : Prop where
  runs : r.Runs
  cancelling : r.cancelling = true
  holds : r.Holds []

/-- The loop has been left, and the task has come to its end. -/
structure Response.Cut (r : Response) : Prop where
  producer : r.producer = .done
  cancelling : r.cancelling = false
  holds : ∃ rest, r.Holds rest
  pc : r.turn.pc = .yieldStart ∨ r.turn.pc.isEnded = true

/-- The sentinel has been taken. -/
structure Response.Taken (r : Response) : Prop where
  producer : r.producer = .done
  cancelling : r.cancelling = false
  events : r.events = r.turn.emitted
  halted : Halted r.turn

/-- The client has gone away. -/
def Exit.isLeft : Exit → Bool
  | .closed => true
  | .cancelled => true
  | _ => false

def Response.OkAt (r : Response) : Place → Prop
  | .created => r.Fresh ∧ r.turn.pc = .yieldStart
  | .yielding => r.Flows ∨ r.Drains
  | .waiting => r.Flows ∨ r.Drains
  | .joining exit => (exit.isLeft = true ∧ (r.Leaves ∨ r.Cut)) ∨ (exit = .finished ∧ r.Taken)
  | .ended exit =>
    ((exit.isLeft = true ∨ exit = .raised) ∧ r.Cut) ∨
    (exit = .closed ∧ r.Fresh ∧ (r.turn.pc = .yieldStart ∨ r.turn.pc.isEnded = true)) ∨
    (exit = .finished ∧ r.Taken ∧ r.turn.pc = .ended .returned)

/-- The invariant. -/
def Response.Ok (r : Response) : Prop := r.OkAt r.place

theorem Response.Ok.of_place {p : Place} (h : r.Ok) (hp : r.place = p) : r.OkAt p := hp ▸ h

theorem Response.Runs.not_done (h : r.Runs) : r.producer ≠ .done := by
  intro hdone
  rcases h.1 with ⟨hcreated, -⟩ | ⟨hrunning, -⟩
  · cases hdone.symm.trans hcreated
  · cases hdone.symm.trans hrunning

theorem Response.cancelTask_place (r : Response) : r.cancelTask.place = r.place := by
  unfold Response.cancelTask
  split <;> rfl

theorem Response.cancelTask_of_done (h : r.producer = .done) : r.cancelTask = r := if_pos h

theorem Response.cancelTask_of_runs (h : r.Runs) :
    r.cancelTask = { r with cancelling := true } := if_neg h.not_done

theorem Response.Drains.cut (h : r.Drains) : r.Cut where
  producer := h.producer
  cancelling := h.cancelling
  holds := ⟨_, h.holds⟩
  pc := by
    rcases h.halted with ⟨hpc, -⟩ | ⟨hpc, -⟩ <;> exact .inr (by rw [hpc]; rfl)

theorem Response.Taken.cut (h : r.Taken) : r.Cut where
  producer := h.producer
  cancelling := h.cancelling
  holds := ⟨r.queue, [], rfl, (List.append_nil _).trans h.events⟩
  pc := by
    rcases h.halted with ⟨hpc, -⟩ | ⟨hpc, -⟩ <;> exact .inr (by rw [hpc]; rfl)

/-- The loop is left, and `task.cancel()` is called. -/
theorem ok_leave {exit : Exit} (hexit : exit.isLeft = true) (h : r.Flows ∨ r.Drains) :
    ({ r with place := .joining exit } : Response).cancelTask.Ok := by
  rcases h with h | h
  · rw [Response.cancelTask_of_runs (r := { r with place := .joining exit }) h.runs]
    exact .inl ⟨hexit, .inl ⟨h.runs, rfl, h.holds⟩⟩
  · rw [Response.cancelTask_of_done (r := { r with place := .joining exit }) h.producer]
    have hcut := h.cut
    exact .inl ⟨hexit, .inr ⟨hcut.producer, hcut.cancelling, hcut.holds, hcut.pc⟩⟩

/-! ## 5. Every step keeps it -/

theorem ok_next (h : r.Ok) (hstep : r.next = some r') : r'.Ok := by
  unfold Response.next at hstep
  split at hstep
  · rename_i hplace
    obtain rfl := Option.some.inj hstep
    obtain ⟨hfresh, hpc⟩ := h.of_place hplace
    refine .inl ⟨⟨.inl ⟨rfl, hpc⟩, hfresh.quiet⟩, hfresh.cancelling, [], hfresh.queue, ?_⟩
    simp [Response.events, hfresh.items, hfresh.emitted]
  · rename_i hplace
    obtain rfl := Option.some.inj hstep
    rcases h.of_place hplace with h | h
    · exact .inl ⟨h.runs, h.cancelling, h.holds⟩
    · exact .inr ⟨h.producer, h.cancelling, h.holds, h.halted⟩
  · cases hstep

/-- An item goes from the head of the queue to the response. -/
theorem Response.Holds.take {ev : Event} {queue : List (Option Event)} (h : r.Holds rest)
    (hqueue : r.queue = some ev :: queue) (hrest : rest = [] ∨ rest = [none]) :
    ({ r with place := .yielding, queue := queue, items := r.items ++ [some ev] } :
      Response).Holds rest := by
  obtain ⟨evs, hevs, hemitted⟩ := h
  rw [hqueue] at hevs
  cases evs with
  | nil => rcases hrest with rfl | rfl <;> cases hevs
  | cons ev' evs =>
    obtain ⟨hev, htail⟩ := List.cons.inj hevs
    obtain rfl := Option.some.inj hev
    refine ⟨evs, htail, ?_⟩
    simpa [Response.events] using hemitted

/-- The sentinel comes last. -/
theorem Response.Holds.sentinel {queue : List (Option Event)} (h : r.Holds [none])
    (hqueue : r.queue = none :: queue) : queue = [] ∧ r.events = r.turn.emitted := by
  obtain ⟨evs, hevs, hemitted⟩ := h
  rw [hqueue] at hevs
  cases evs with
  | nil => exact ⟨(List.cons.inj hevs).2, (List.append_nil _).symm.trans hemitted⟩
  | cons ev evs => cases (List.cons.inj hevs).1

theorem ok_take (h : r.Ok) (hstep : r.take = some r') : r'.Ok := by
  unfold Response.take at hstep
  split at hstep
  · rename_i hplace hqueue
    obtain rfl := Option.some.inj hstep
    rcases h.of_place hplace with h | h
    · exact .inl ⟨h.runs, h.cancelling, h.holds.take hqueue (.inl rfl)⟩
    · exact .inr ⟨h.producer, h.cancelling, h.holds.take hqueue (.inr rfl), h.halted⟩
  · rename_i queue hplace hqueue
    obtain rfl := Option.some.inj hstep
    rcases h.of_place hplace with h | h
    · -- without the sentinel there is nothing to take
      obtain ⟨evs, hevs, -⟩ := h.holds
      rw [hqueue, List.append_nil] at hevs
      cases evs with
      | nil => cases hevs
      | cons ev evs => cases (List.cons.inj hevs).1
    · rw [Response.cancelTask_of_done
        (r := { r with place := .joining .finished, queue := queue }) h.producer]
      exact .inr ⟨rfl, h.producer, h.cancelling, (h.holds.sentinel hqueue).2, h.halted⟩
  · cases hstep

theorem ok_timeout (h : r.Ok) (hstep : r.timeout = some r') : r'.Ok := by
  unfold Response.timeout at hstep
  split at hstep
  · rename_i hplace
    obtain rfl := Option.some.inj hstep
    have hholds : ∀ {rest}, r.Holds rest →
        ({ r with place := .yielding, items := r.items ++ [none] } : Response).Holds rest := by
      rintro rest ⟨evs, hevs, hemitted⟩
      exact ⟨evs, hevs, by simpa [Response.events] using hemitted⟩
    rcases h.of_place hplace with h | h
    · exact .inl ⟨h.runs, h.cancelling, hholds h.holds⟩
    · exact .inr ⟨h.producer, h.cancelling, hholds h.holds, h.halted⟩
  · cases hstep

theorem ok_close (h : r.Ok) (hstep : r.close = some r') : r'.Ok := by
  unfold Response.close at hstep
  split at hstep
  · rename_i hplace
    obtain rfl := Option.some.inj hstep
    obtain ⟨hfresh, hpc⟩ := h.of_place hplace
    exact .inr (.inl ⟨rfl, ⟨hfresh.producer, hfresh.cancelling, hfresh.queue, hfresh.items,
      hfresh.emitted, hfresh.quiet⟩, .inl hpc⟩)
  · rename_i hplace
    obtain rfl := Option.some.inj hstep
    exact ok_leave rfl (h.of_place hplace)
  · cases hstep

theorem ok_cancel (h : r.Ok) (hstep : r.cancel = some r') : r'.Ok := by
  unfold Response.cancel at hstep
  split at hstep
  · rename_i hplace
    obtain rfl := Option.some.inj hstep
    exact ok_leave rfl (h.of_place hplace)
  · rename_i exit hplace
    obtain rfl := Option.some.inj hstep
    unfold Response.Ok
    rw [r.cancelTask_place, hplace]
    rcases h.of_place hplace with ⟨hexit, hleaves | hcut⟩ | ⟨hexit, htaken⟩
    · rw [Response.cancelTask_of_runs hleaves.runs]
      exact .inl ⟨hexit, .inl ⟨hleaves.runs, rfl, hleaves.holds⟩⟩
    · rw [Response.cancelTask_of_done hcut.producer]
      exact .inl ⟨hexit, .inr hcut⟩
    · rw [Response.cancelTask_of_done htaken.producer]
      exact .inr ⟨hexit, htaken⟩
  · cases hstep

theorem ok_join (h : r.Ok) (hstep : r.join = some r') : r'.Ok := by
  unfold Response.join at hstep
  split at hstep
  · rename_i exit hplace hproducer
    obtain rfl := Option.some.inj hstep
    by_cases hraised : r.turn.pc = .ended .raised
    · have hcut : r.Cut := by
        rcases h.of_place hplace with ⟨-, hleaves | hcut⟩ | ⟨-, htaken⟩
        · exact absurd hproducer hleaves.runs.not_done
        · exact hcut
        · exact htaken.cut
      rw [if_pos hraised]
      exact .inl ⟨.inr rfl, hcut.producer, hcut.cancelling, hcut.holds, hcut.pc⟩
    · rw [if_neg hraised]
      rcases h.of_place hplace with ⟨hexit, hleaves | hcut⟩ | ⟨rfl, htaken⟩
      · exact absurd hproducer hleaves.runs.not_done
      · exact .inl ⟨.inl hexit, hcut.producer, hcut.cancelling, hcut.holds, hcut.pc⟩
      · refine .inr (.inr ⟨rfl, ⟨htaken.producer, htaken.cancelling, htaken.events,
          htaken.halted⟩, ?_⟩)
        exact htaken.halted.elim And.left fun h => absurd h.1 hraised
  · cases hstep

/-- While the task can run and has not been cancelled, the loop goes on. -/
theorem Response.Ok.flows (h : r.Ok) (hproducer : r.producer = .created ∨ r.producer = .running)
    (hcancelling : r.cancelling = false) :
    r.Flows ∧ (r.place = .yielding ∨ r.place = .waiting) := by
  have hnotDone : r.producer ≠ .done := by rcases hproducer with hp | hp <;> simp [hp]
  have hnotAbsent : r.producer ≠ .absent := by rcases hproducer with hp | hp <;> simp [hp]
  cases hplace : r.place with
  | created => exact absurd (h.of_place hplace).1.producer hnotAbsent
  | yielding =>
    exact ⟨(h.of_place hplace).resolve_right fun h => hnotDone h.producer, .inl rfl⟩
  | waiting =>
    exact ⟨(h.of_place hplace).resolve_right fun h => hnotDone h.producer, .inr rfl⟩
  | joining exit =>
    rcases h.of_place hplace with ⟨-, hleaves | hcut⟩ | ⟨-, htaken⟩
    · cases hcancelling.symm.trans hleaves.cancelling
    · exact absurd hcut.producer hnotDone
    · exact absurd htaken.producer hnotDone
  | ended exit =>
    rcases h.of_place hplace with ⟨-, hcut⟩ | ⟨-, hfresh, -⟩ | ⟨-, htaken, -⟩
    · exact absurd hcut.producer hnotDone
    · exact absurd hfresh.producer hnotAbsent
    · exact absurd htaken.producer hnotDone

/-- A cancellation that the task has not heard of comes from the `finally` block. -/
theorem Response.Ok.leaves (h : r.Ok) (hcancelling : r.cancelling = true) :
    r.Leaves ∧ ∃ exit : Exit, r.place = .joining exit ∧ exit.isLeft = true := by
  have hnot : r.cancelling ≠ false := by simp [hcancelling]
  cases hplace : r.place with
  | created => exact absurd (h.of_place hplace).1.cancelling hnot
  | yielding => rcases h.of_place hplace with h | h <;> exact absurd h.cancelling hnot
  | waiting => rcases h.of_place hplace with h | h <;> exact absurd h.cancelling hnot
  | joining exit =>
    rcases h.of_place hplace with ⟨hexit, hleaves | hcut⟩ | ⟨-, htaken⟩
    · exact ⟨hleaves, exit, rfl, hexit⟩
    · exact absurd hcut.cancelling hnot
    · exact absurd htaken.cancelling hnot
  | ended exit =>
    rcases h.of_place hplace with ⟨-, hcut⟩ | ⟨-, hfresh, -⟩ | ⟨-, htaken, -⟩
    · exact absurd hcut.cancelling hnot
    · exact absurd hfresh.cancelling hnot
    · exact absurd htaken.cancelling hnot

theorem not_ended_of_suspended {pc : Pc} (h : isSuspended pc = true) : pc.isEnded = false := by
  cases pc <;> simp_all [isSuspended, Pc.isEnded]

/-- **`produce` puts every event on the queue**, and the sentinel behind the last one. -/
theorem flows_pump (h : r.Flows) (ht : Produces r.turn t) :
    (r.pump t).Flows ∨ (r.pump t).Drains := by
  obtain ⟨evs, hqueue, hemitted⟩ := h.holds
  obtain ⟨new, hnew⟩ := ht.emitted
  rw [List.append_nil] at hqueue
  have hdrop : t.emitted.drop r.turn.emitted.length = new := by
    rw [← hnew, List.drop_left]
  have hevents : r.events ++ (evs ++ new) = (resumed t).emitted := by
    rw [resumed_emitted, ← hnew, ← hemitted, List.append_assoc]
  rcases ht.rests with ⟨hpc, hquiet⟩ | hhalted
  · refine .inl ⟨⟨.inr ⟨?_, hpc⟩, hquiet⟩, h.cancelling, evs ++ new, ?_, hevents⟩
    · simp [Response.pump, not_ended_of_suspended hpc]
    · simp [Response.pump, not_ended_of_suspended hpc, hqueue, hdrop]
  · have hended : (resumed t).pc.isEnded = true := by
      rcases hhalted with ⟨hpc, -⟩ | ⟨hpc, -⟩ <;> rw [hpc] <;> rfl
    refine .inr ⟨?_, h.cancelling, ⟨evs ++ new, ?_, hevents⟩, hhalted⟩
    · simp [Response.pump, hended]
    · simp [Response.pump, hended, hqueue, hdrop]

theorem ok_pump (h : r.Flows) (hplace : r.place = .yielding ∨ r.place = .waiting)
    (ht : Produces r.turn t) : (r.pump t).Ok := by
  have hpump := flows_pump h ht
  have hsame : (r.pump t).place = r.place := rfl
  unfold Response.Ok
  rw [hsame]
  rcases hplace with hplace | hplace <;> rw [hplace] <;> exact hpump

theorem ok_begin (h : r.Ok) (hstep : r.begin = some r') : r'.Ok := by
  unfold Response.begin at hstep
  split at hstep
  · rename_i hnow
    obtain ⟨t, ht, rfl⟩ := Option.map_eq_some_iff.mp hstep
    obtain ⟨hflows, hplace⟩ := h.flows (.inl hnow.1) hnow.2
    have hpc : r.turn.pc = .yieldStart := by
      rcases hflows.runs.1 with ⟨-, hpc⟩ | ⟨hrunning, -⟩
      · exact hpc
      · cases hnow.1.symm.trans hrunning
    refine ok_pump hflows hplace ?_
    simp only [Turn.resume, hpc, Option.some.injEq] at ht
    subst ht
    refine ⟨List.prefix_rfl, rests_await ?_ hflows.runs.2⟩
    by_cases hsome : r.turn.turn.sourceIds.isSome = true <;> simp [hsome, isSuspended]
  · cases hstep

theorem ok_deliver (h : r.Ok) (hstep : r.deliver cfg = some r') : r'.Ok := by
  unfold Response.deliver at hstep
  split at hstep
  · rename_i hcancelling
    obtain ⟨hleaves, exit, hplace, hexit⟩ := h.leaves hcancelling
    obtain ⟨evs, hqueue, hemitted⟩ := hleaves.holds
    split at hstep
    · rename_i hproducer
      obtain rfl := Option.some.inj hstep
      have hpc : r.turn.pc = .yieldStart := by
        rcases hleaves.runs.1 with ⟨-, hpc⟩ | ⟨hrunning, -⟩
        · exact hpc
        · cases hproducer.symm.trans hrunning
      unfold Response.Ok
      rw [show ({ r with producer := .done, cancelling := false } : Response).place
        = .joining exit from hplace]
      exact .inl ⟨hexit, .inr ⟨rfl, rfl, ⟨[], evs, hqueue, hemitted⟩, .inl hpc⟩⟩
    · rename_i hproducer
      obtain ⟨t, ht, rfl⟩ := Option.map_eq_some_iff.mp hstep
      obtain ⟨-, rfl⟩ := cancel_eq ht
      have hafter : r.queue ++ [none] = evs.map some ++ [none] := by rw [hqueue, List.append_nil]
      unfold Response.Ok
      refine (?_ : Response.OkAt _ r.place)
      rw [hplace]
      exact .inl ⟨hexit, .inr ⟨rfl, rfl, ⟨[none], evs, hafter, hemitted⟩, .inr rfl⟩⟩
    · cases hstep
  · cases hstep

/-- What only moves the turn aside from its events keeps the invariant. -/
theorem ok_turn (h : r.Ok) (hpc : t.pc = r.turn.pc) (hemitted : t.emitted = r.turn.emitted) :
    ({ r with turn := t } : Response).Ok := by
  have hholds : ∀ {rest}, r.Holds rest → ({ r with turn := t } : Response).Holds rest := by
    rintro rest ⟨evs, hevs, hevents⟩
    exact ⟨evs, hevs, hevents.trans hemitted.symm⟩
  have hruns : r.Runs → ({ r with turn := t } : Response).Runs := by
    intro h
    refine ⟨?_, ?_⟩
    · rw [show ({ r with turn := t } : Response).turn.pc = r.turn.pc from hpc]
      exact h.1
    · rw [show ({ r with turn := t } : Response).turn.emitted = r.turn.emitted from hemitted]
      exact h.2
  have hhalted : Halted r.turn → Halted t := by
    unfold Halted
    rw [hpc, hemitted]
    exact id
  have hfresh : r.Fresh → ({ r with turn := t } : Response).Fresh := fun h =>
    ⟨h.producer, h.cancelling, h.queue, h.items, hemitted.trans h.emitted,
      show Quiet t.emitted from hemitted ▸ h.quiet⟩
  have hdrains : r.Drains → ({ r with turn := t } : Response).Drains := fun h =>
    ⟨h.producer, h.cancelling, hholds h.holds, hhalted h.halted⟩
  have hflows : r.Flows → ({ r with turn := t } : Response).Flows := fun h =>
    ⟨hruns h.runs, h.cancelling, hholds h.holds⟩
  have hcut : r.Cut → ({ r with turn := t } : Response).Cut := fun h =>
    ⟨h.producer, h.cancelling, h.holds.imp fun _ => hholds, show t.pc = _ ∨ t.pc.isEnded = _ from
      hpc ▸ h.pc⟩
  have htaken : r.Taken → ({ r with turn := t } : Response).Taken := fun h =>
    ⟨h.producer, h.cancelling, h.events.trans hemitted.symm, hhalted h.halted⟩
  have hat : ∀ p, r.OkAt p → ({ r with turn := t } : Response).OkAt p := by
    intro p h
    cases p with
    | created => exact h.imp hfresh hpc.trans
    | yielding => exact h.imp hflows hdrains
    | waiting => exact h.imp hflows hdrains
    | joining exit =>
      refine h.imp (And.imp_right ?_) (And.imp_right htaken)
      exact Or.imp (fun h => ⟨hruns h.runs, h.cancelling, hholds h.holds⟩) hcut
    | ended exit =>
      refine h.imp (And.imp_right hcut) (Or.imp ?_ ?_)
      · exact And.imp_right (And.imp hfresh (Or.imp hpc.trans fun h => by rwa [hpc]))
      · exact And.imp_right (And.imp htaken hpc.trans)
  exact hat r.place h

theorem exists_exit {p : Place} (h : p.isEnded = true) : ∃ exit, p = .ended exit := by
  cases p with
  | ended exit => exact ⟨exit, rfl⟩
  | _ => cases h

/-- A generator that nobody holds is at its first `yield`, and it ends there. -/
theorem ok_finalize (h : r.Ok) (hstep : r.finalize = some r') : r'.Ok := by
  unfold Response.finalize at hstep
  split at hstep
  · rename_i hended
    obtain ⟨t, ht, rfl⟩ := Option.map_eq_some_iff.mp hstep
    have hends : r.turn.pc = .yieldStart → t = { r.turn with pc := .ended .generatorExit } := by
      intro hpc
      simp only [Turn.close, hpc, Pc.isYield, Pc.inTry, if_true, Option.some.injEq] at ht
      exact ht.symm
    have hstuck : r.turn.pc.isEnded = true → False := by
      intro hpc
      have hyield : r.turn.pc.isYield = false := by
        cases hcase : r.turn.pc <;> simp_all [Pc.isYield, Pc.isEnded]
      simp [Turn.close, hyield] at ht
    obtain ⟨exit, hplace⟩ := exists_exit hended
    refine (?_ : Response.OkAt _ r.place)
    rw [hplace]
    rcases h.of_place hplace with ⟨hexit, hcut⟩ | ⟨hexit, hfresh, hpc⟩ | ⟨-, -, hpc⟩
    · have hpc := hcut.pc.resolve_right fun h => hstuck h
      obtain rfl := hends hpc
      exact .inl ⟨hexit, hcut.producer, hcut.cancelling, hcut.holds, .inr rfl⟩
    · obtain rfl := hends (hpc.resolve_right fun h => hstuck h)
      exact .inr (.inl ⟨hexit, ⟨hfresh.producer, hfresh.cancelling, hfresh.queue, hfresh.items,
        hfresh.emitted, hfresh.quiet⟩, .inr rfl⟩)
    · exact (hstuck (by rw [hpc]; rfl)).elim
  · cases hstep

/-- The background tasks and the database leave the generator where it is. -/
theorem outside_same (hc : isOutside c = true) (h : t.step cfg db c = some (db', t')) :
    t'.pc = t.pc ∧ t'.emitted = t.emitted := by
  cases c with
  | background k =>
    obtain ⟨buffer, -, heq⟩ := Option.map_eq_some_iff.mp h
    split at heq <;> obtain ⟨-, rfl⟩ := Prod.mk.inj heq <;> exact ⟨rfl, rfl⟩
  | backgroundFail k lost =>
    obtain ⟨buffer, -, heq⟩ := Option.map_eq_some_iff.mp h
    obtain ⟨-, rfl⟩ := Prod.mk.inj heq
    exact ⟨rfl, rfl⟩
  | settle k commits =>
    obtain ⟨txn, -, heq⟩ := Option.map_eq_some_iff.mp h
    obtain ⟨-, rfl⟩ := Prod.mk.inj heq
    exact ⟨rfl, rfl⟩
  | _ => cases hc

theorem ok_moved {o : Option Response} (hok : ∀ r', o = some r' → r'.Ok)
    (h : (o.map fun r => (db, r)) = some (db', r')) : r'.Ok := by
  obtain ⟨r₁, hr₁, heq⟩ := Option.map_eq_some_iff.mp h
  obtain ⟨-, rfl⟩ := Prod.mk.inj heq
  exact hok r₁ hr₁

/-- **Every step keeps the invariant.** -/
theorem ok_step {l : Label} (h : r.Ok) (hstep : step cfg (db, r) l = some (db', r')) : r'.Ok := by
  cases l with
  | next => exact ok_moved (fun _ => ok_next h) hstep
  | take => exact ok_moved (fun _ => ok_take h) hstep
  | timeout => exact ok_moved (fun _ => ok_timeout h) hstep
  | close => exact ok_moved (fun _ => ok_close h) hstep
  | cancel => exact ok_moved (fun _ => ok_cancel h) hstep
  | join => exact ok_moved (fun _ => ok_join h) hstep
  | begin => exact ok_moved (fun _ => ok_begin h) hstep
  | deliver => exact ok_moved (fun _ => ok_deliver h) hstep
  | finalize => exact ok_moved (fun _ => ok_finalize h) hstep
  | produce c =>
    simp only [step] at hstep
    split at hstep
    · rename_i hnow
      obtain ⟨⟨db₁, t⟩, ht, heq⟩ := Option.map_eq_some_iff.mp hstep
      obtain ⟨-, rfl⟩ := Prod.mk.inj heq
      obtain ⟨hflows, hplace⟩ := h.flows (.inr hnow.1) hnow.2.1
      have hpc : isSuspended r.turn.pc = true := by
        rcases hflows.runs.1 with ⟨hcreated, -⟩ | ⟨-, hpc⟩
        · cases hnow.1.symm.trans hcreated
        · exact hpc
      exact ok_pump hflows hplace (produces_step hpc hflows.runs.2 hnow.2.2 ht)
    · cases hstep
  | outside c =>
    simp only [step] at hstep
    split at hstep
    · rename_i hc
      obtain ⟨⟨db₁, t⟩, ht, heq⟩ := Option.map_eq_some_iff.mp hstep
      obtain ⟨-, rfl⟩ := Prod.mk.inj heq
      obtain ⟨hpc, hemitted⟩ := outside_same hc ht
      exact ok_turn h hpc hemitted
    · cases hstep

end AtlasKnowledge.Chat.Source
