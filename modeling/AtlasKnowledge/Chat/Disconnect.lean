/-
# The client goes away

A closed generator saves its partial before it ends, and a cancelled one moves the saving to the
background.  Both handlers belong to the stream's `try` block.  The saving of the whole answer,
`_persist_success`, runs behind it, and the saving of a closed generator inside a handler: a
cancellation there cuts the transaction off and nothing saves the text again.

* `disconnect`: after an interruption of a turn on an available database, all text emitted before
  it is saved, exactly if the interruption does not cut off a saving outside the `try` block that
  the database then does not commit;
* `not_disconnect`: one delta, a stop, and a cancellation of the saving.
-/
import AtlasKnowledge.Chat.Rows
import AtlasKnowledge.Lib.Transition

namespace AtlasKnowledge.Chat

open Transition

/-! ## 1. The property -/

/-- The database is available, and the task is not cancelled. -/
def Choice.isOrdinary : Choice → Bool
  | .cancel => false
  | .fail _ => false
  | .backgroundFail _ _ => false
  | _ => true

/-- The generator is closed or its task is cancelled. -/
def Choice.isInterrupt : Choice → Bool
  | .close => true
  | .cancel => true
  | _ => false

/-- The generator has ended, all background tasks have finished, and the database has settled
what was cut off. -/
structure Turn.Quiescent (t : Turn) : Prop where
  pc : t.pc.isEnded = true
  background : t.background = []
  unsettled : t.unsettled = []

/-- The conversation has an assistant message of the id, and it begins with these texts. -/
def Answered (db : Db) (id conversationId : Id) (texts : List Text) : Prop :=
  ∃ m ∈ db.messages.rows, m.id = id ∧ m.conversationId = conversationId ∧
    m.role = .assistant ∧ texts.flatten <+: m.content

/-- A turn with text is interrupted: up to `s` it runs on an available database (a generator that
was closed may go on to its saving), at `s` the generator is closed or the task is cancelled, and
at `s'` the generator, the background tasks and the database have come to rest. -/
structure Interrupted (cfg : Config) (db : Db) (ctx : AuthContext) (conversationId : Id)
    (prepared : Prepared) (before : List Choice) (c : Choice) (after : List Choice)
    (s s' : Db × Turn) : Prop where
  fresh : Fresh db prepared.assistantMessageId
  ordinaryBefore : ∀ c ∈ before, c.isOrdinary = true
  interrupt : c.isInterrupt = true
  ordinaryAfter : ∀ c ∈ after, c.isOrdinary = true
  reaches : run (soloStep cfg) (db, Turn.start ctx conversationId prepared) before = some s
  text : deltasOf s.2.emitted ≠ []
  rests : run (soloStep cfg) s (c :: after) = some s'
  quiescent : s'.2.Quiescent

/-- The awaited saving lies outside the `try` block: if it is cut off, no handler saves again. -/
def Pc.savesOutsideTry : Pc → Bool
  | .saveRetrievalError _ _ => true
  | .closing _ => true
  | .saveSuccess _ _ => true
  | _ => false

/-! ## 2. Messages that keep the text -/

/-- An assistant message of the turn with the text. -/
structure Keeps (t : Turn) (texts : List Text) (m : MessageRow) : Prop where
  conversationId : m.conversationId = t.conversationId
  role : m.role = .assistant
  content : m.content = texts.flatten

/-- There is a message of the turn's id, and it keeps the text. -/
structure Saved (db : Db) (t : Turn) (texts : List Text) : Prop where
  some : db.messagesOf t.id ≠ []
  keeps : ∀ m ∈ db.messagesOf t.id, Keeps t texts m

variable {cfg : Config} {db db' : Db} {t t' : Turn} {texts : List Text} {f : Frame}

theorem Saved.answered (h : Saved db t texts) : Answered db t.id t.conversationId texts := by
  obtain ⟨m, hm⟩ := List.exists_mem_of_ne_nil _ h.some
  obtain ⟨hmem, hid⟩ := mem_messagesOf.mp hm
  have hkeeps := h.keeps m hm
  exact ⟨m, hmem, hid, hkeeps.conversationId, hkeeps.role, hkeeps.content ▸ List.prefix_rfl⟩

theorem not_answered (h : db.messagesOf t.id = []) :
    ¬ Answered db t.id t.conversationId texts := by
  rintro ⟨m, hmem, hid, -⟩
  have hm : m ∈ db.messagesOf t.id := mem_messagesOf.mpr ⟨hmem, hid⟩
  rw [h] at hm
  exact nomatch hm

/-- The three transactions with text keep it. -/
theorem successTxn_keeps (latencyMs : Int) :
    ∀ m ∈ (t.successTxn cfg f latencyMs).message, Keeps t f.buffer m := by
  rintro m ⟨⟩
  exact ⟨rfl, rfl, rfl⟩

theorem errorTxn_keeps (code : String) :
    ∀ m ∈ (t.errorTxn cfg texts code).message, Keeps t texts m := by
  intro m hm
  simp only [Turn.errorTxn] at hm
  split at hm
  · cases hm
  · obtain rfl := Option.some.inj hm
    exact ⟨rfl, rfl, rfl⟩

theorem cancelledTxn_keeps : ∀ m ∈ (t.cancelledTxn cfg texts).message, Keeps t texts m := by
  rintro m ⟨⟩
  exact ⟨rfl, rfl, rfl⟩

/-- The commit of such a transaction, or its conflict, leaves the text saved. -/
theorem attempt_saved {txn : Txn} (hof : txn.Of t.id) (hsome : txn.message.isSome = true)
    (hkeeps : ∀ m ∈ txn.message, Keeps t texts m)
    (hall : ∀ m ∈ db.messagesOf t.id, Keeps t texts m) : Saved (db.attempt txn) t texts := by
  rcases commit_cases db hof with ⟨db', hcommit, hmessages, -, -⟩ | ⟨hcommit, -, hthere⟩
  · have hattempt : db.attempt txn = db' := by simp [Db.attempt, hcommit]
    rw [hattempt]
    constructor
    · rw [hmessages]
      obtain ⟨row, hrow⟩ := Option.isSome_iff_exists.mp hsome
      simp [hrow]
    · intro m hm
      rw [hmessages] at hm
      rcases List.mem_append.mp hm with hold | hnew
      · exact hall m hold
      · exact hkeeps m (Option.mem_toList.mp hnew)
  · have hattempt : db.attempt txn = db := by simp [Db.attempt, hcommit]
    rw [hattempt]
    exact ⟨hthere, hall⟩

/-- A transaction that keeps the text never spoils it. -/
theorem attempt_keeps {txn : Txn} (hof : txn.Of t.id) (hkeeps : ∀ m ∈ txn.message, Keeps t texts m)
    (hall : ∀ m ∈ db.messagesOf t.id, Keeps t texts m) :
    (∀ m ∈ (db.attempt txn).messagesOf t.id, Keeps t texts m) ∧
      (db.messagesOf t.id ≠ [] → (db.attempt txn).messagesOf t.id ≠ []) := by
  rcases commit_cases db hof with ⟨db', hcommit, hmessages, -, -⟩ | ⟨hcommit, -, hthere⟩
  · have hattempt : db.attempt txn = db' := by simp [Db.attempt, hcommit]
    rw [hattempt, hmessages]
    constructor
    · intro m hm
      rcases List.mem_append.mp hm with hold | hnew
      · exact hall m hold
      · exact hkeeps m (Option.mem_toList.mp hnew)
    · intro hne hnil
      exact hne (List.append_eq_nil_iff.mp hnil).1
  · have hattempt : db.attempt txn = db := by simp [Db.attempt, hcommit]
    rw [hattempt]
    exact ⟨hall, fun h => h⟩

/-! ## 3. Before the interruption -/

/-- What the place at which an undisturbed turn stands says about the text.  The generator may
already have been closed. -/
def AtPlace (db : Db) (t : Turn) : Pc → Prop
  | .yieldStart => deltasOf t.emitted = [] ∧ db.messagesOf t.id = []
  | .retrieving => deltasOf t.emitted = [] ∧ db.messagesOf t.id = []
  | .saveRetrievalError _ _ => deltasOf t.emitted = [] ∧ db.messagesOf t.id = []
  | .yieldCitations => deltasOf t.emitted = [] ∧ db.messagesOf t.id = []
  | .streaming f => deltasOf t.emitted = f.buffer ∧ db.messagesOf t.id = []
  | .yieldDelta f => deltasOf t.emitted = f.buffer ∧ db.messagesOf t.id = []
  | .saveStreamError f _ _ => deltasOf t.emitted = f.buffer ∧ db.messagesOf t.id = []
  | .saveSuccess f _ => deltasOf t.emitted = f.buffer ∧ db.messagesOf t.id = []
  | .yieldStreamError f => deltasOf t.emitted = f.buffer ∧
    (f.buffer ≠ [] → Saved db t f.buffer)
  | .yieldLast => deltasOf t.emitted ≠ [] → Saved db t (deltasOf t.emitted)
  | .closing f => deltasOf t.emitted = f.buffer ∧ (db.messagesOf t.id = [] ∨ Saved db t f.buffer)
  | .ended _ => True

/-- The invariant of an undisturbed turn. -/
structure Undisturbed (s : Db × Turn) : Prop where
  background : s.2.background = []
  unsettled : s.2.unsettled = []
  place : AtPlace s.1 s.2 s.2.pc

theorem deltasOf_append (events : List Event) (e : Event) :
    deltasOf (events ++ [e]) = deltasOf events ++ deltasOf [e] := List.filterMap_append

/-- What is saved depends on the turn's id and conversation only. -/
theorem Saved.congr (h : Saved db t texts) (hid : t'.id = t.id)
    (hconv : t'.conversationId = t.conversationId) : Saved db t' texts where
  some := by
    rw [hid]
    exact h.some
  keeps := by
    intro m hm
    rw [hid] at hm
    have hkeeps := h.keeps m hm
    exact ⟨hkeeps.conversationId.trans hconv.symm, hkeeps.role, hkeeps.content⟩

/-- A commit in an undisturbed turn goes through. -/
theorem commit_undisturbed {txn : Txn} (htxn : t.saving cfg = some txn)
    (hnone : db.messagesOf t.id = []) (h : t.step cfg db .commit = some (db', t')) :
    db' = db.attempt txn ∧ t' = t.afterSave true := by
  obtain ⟨db₁, hcommit⟩ := commit_of_none (saving_of htxn) hnone
  obtain ⟨txn', htxn', heq⟩ := Option.map_eq_some_iff.mp h
  obtain rfl := Option.some.inj (htxn.symm.trans htxn')
  rw [hcommit] at heq
  obtain ⟨rfl, rfl⟩ := Prod.mk.inj heq
  exact ⟨by simp [Db.attempt, hcommit], rfl⟩

theorem undisturbed_commit (hs : Undisturbed (db, t))
    (h : t.step cfg db .commit = some (db', t')) : Undisturbed (db', t') := by
  obtain ⟨txn, htxn, -⟩ := Option.map_eq_some_iff.mp h
  have hof : txn.Of t.id := saving_of htxn
  have hplace : AtPlace db t t.pc := hs.place
  cases hpc : t.pc with
  | saveRetrievalError code message =>
    rw [hpc] at hplace
    obtain ⟨rfl, rfl⟩ := commit_undisturbed htxn hplace.2 h
    refine ⟨(afterSave_background t true).trans hs.background,
      (afterSave_unsettled t true).trans hs.unsettled, ?_⟩
    have hafter : t.afterSave true = t.emit (.error code message t.ctx.traceId) .yieldLast := by
      simp only [Turn.afterSave, hpc]
    rw [hafter]
    intro hne
    refine absurd ?_ hne
    rw [Turn.emit, deltasOf_append, hplace.1]
    rfl
  | saveStreamError f code message =>
    rw [hpc] at hplace
    obtain ⟨rfl, rfl⟩ := commit_undisturbed htxn hplace.2 h
    refine ⟨(afterSave_background t true).trans hs.background,
      (afterSave_unsettled t true).trans hs.unsettled, ?_⟩
    have hafter : t.afterSave true
        = t.emit (.error code message t.ctx.traceId) (.yieldStreamError f) := by
      simp only [Turn.afterSave, hpc]
    rw [hafter]
    constructor
    · rw [Turn.emit, deltasOf_append, hplace.1]
      exact List.append_nil _
    · intro hbuffer
      obtain rfl : t.errorTxn cfg f.buffer code = txn := by simpa [Turn.saving, hpc] using htxn
      have hsaved : Saved (db.attempt (t.errorTxn cfg f.buffer code)) t f.buffer := by
        refine attempt_saved hof ?_ (errorTxn_keeps code) ?_
        · simp [Turn.errorTxn, hbuffer]
        · intro m hm
          rw [hplace.2] at hm
          cases hm
      exact hsaved.congr rfl rfl
  | saveSuccess f latencyMs =>
    rw [hpc] at hplace
    obtain ⟨rfl, rfl⟩ := commit_undisturbed htxn hplace.2 h
    refine ⟨(afterSave_background t true).trans hs.background,
      (afterSave_unsettled t true).trans hs.unsettled, ?_⟩
    obtain rfl : t.successTxn cfg f latencyMs = txn := by simpa [Turn.saving, hpc] using htxn
    have hsaved : Saved (db.attempt (t.successTxn cfg f latencyMs)) t f.buffer := by
      refine attempt_saved hof rfl (successTxn_keeps latencyMs) ?_
      intro m hm
      rw [hplace.2] at hm
      cases hm
    have hafter : t.afterSave true = { t.emit (.done t.id f.stopReason.finishReason f.tokensIn
        f.tokensOut latencyMs) .yieldLast with
          titles := t.titles ++ if t.turn.titleIsNone then [t.conversationId] else [] } := by
      simp only [Turn.afterSave, hpc, if_true]
    rw [hafter]
    intro _
    have hdeltas : deltasOf (t.emitted ++ [.done t.id f.stopReason.finishReason f.tokensIn
        f.tokensOut latencyMs]) = f.buffer := by
      rw [deltasOf_append, hplace.1]
      exact List.append_nil _
    simp only [Turn.emit, hdeltas]
    exact hsaved.congr rfl rfl
  | closing f =>
    obtain ⟨txn', -, heq⟩ := Option.map_eq_some_iff.mp h
    have hafter : ∀ saved, t.afterSave saved = { t with pc := .ended .generatorExit } := by
      intro saved
      simp only [Turn.afterSave, hpc]
    have ht' : t' = { t with pc := .ended .generatorExit } := by
      split at heq
      · rw [← (Prod.mk.inj heq).2, hafter]
      · rw [← (Prod.mk.inj heq).2, hafter]
    subst ht'
    exact ⟨hs.background, hs.unsettled, trivial⟩
  | _ => simp [Turn.saving, hpc] at htxn

/-- The generator is closed at a `yield`: inside the `try` block its partial is saved first. -/
theorem undisturbed_close (hs : Undisturbed (db, t)) (h : t.close = some t') :
    Undisturbed (db, t') := by
  have hplace : AtPlace db t t.pc := hs.place
  unfold Turn.close at h
  split at h
  · rename_i hyield
    cases hpc : t.pc with
    | yieldDelta f =>
      rw [hpc] at hplace
      simp only [hpc, Pc.inTry] at h
      obtain rfl := Option.some.inj h
      refine ⟨hs.background, hs.unsettled, ?_⟩
      by_cases hbuffer : f.buffer = []
      · simp only [hbuffer, if_true]
        exact trivial
      · simp only [hbuffer, if_false]
        exact ⟨hplace.1, Or.inl hplace.2⟩
    | yieldStreamError f =>
      rw [hpc] at hplace
      simp only [hpc, Pc.inTry] at h
      obtain rfl := Option.some.inj h
      refine ⟨hs.background, hs.unsettled, ?_⟩
      by_cases hbuffer : f.buffer = []
      · simp only [hbuffer, if_true]
        exact trivial
      · simp only [hbuffer, if_false]
        exact ⟨hplace.1, Or.inr ((hplace.2 hbuffer).congr rfl rfl)⟩
    | yieldStart | yieldCitations | yieldLast =>
      simp only [hpc, Pc.inTry] at h
      obtain rfl := Option.some.inj h
      exact ⟨hs.background, hs.unsettled, trivial⟩
    | _ => simp [hpc, Pc.isYield] at hyield
  · exact nomatch h

theorem undisturbed_resume (hs : Undisturbed (db, t)) (h : t.resume = some t') :
    Undisturbed (db, t') := by
  have hplace : AtPlace db t t.pc := hs.place
  unfold Turn.resume at h
  split at h
  all_goals rename_i hpc
  · obtain rfl := Option.some.inj h
    rw [hpc] at hplace
    refine ⟨hs.background, hs.unsettled, ?_⟩
    by_cases hrag : t.turn.sourceIds.isSome
    · simp only [hrag, if_true]
      exact hplace
    · simp only [hrag]
      exact hplace
  · obtain rfl := Option.some.inj h
    rw [hpc] at hplace
    exact ⟨hs.background, hs.unsettled, hplace⟩
  · obtain rfl := Option.some.inj h
    rw [hpc] at hplace
    exact ⟨hs.background, hs.unsettled, hplace⟩
  · obtain rfl := Option.some.inj h
    exact ⟨hs.background, hs.unsettled, trivial⟩
  · obtain rfl := Option.some.inj h
    exact ⟨hs.background, hs.unsettled, trivial⟩
  · exact nomatch h

theorem undisturbed_retrieved {r : Retrieval} (hs : Undisturbed (db, t))
    (h : t.retrieved cfg r = some t') : Undisturbed (db, t') := by
  have hplace : AtPlace db t t.pc := hs.place
  unfold Turn.retrieved at h
  split at h
  · rename_i hpc
    rw [hpc] at hplace
    split at h
    · simp only at h
      split at h
      · obtain rfl := Option.some.inj h
        exact ⟨hs.background, hs.unsettled, hplace⟩
      · obtain rfl := Option.some.inj h
        refine ⟨hs.background, hs.unsettled, ?_, hplace.2⟩
        rw [Turn.emit, deltasOf_append, hplace.1]
        rfl
    · obtain rfl := Option.some.inj h
      exact ⟨hs.background, hs.unsettled, hplace⟩
    · obtain rfl := Option.some.inj h
      exact ⟨hs.background, hs.unsettled, hplace⟩
  · exact nomatch h

/-- A delta goes into the buffer and out to the client. -/
theorem undisturbed_provided {step : ProviderStep} {latencyMs : Int} (hs : Undisturbed (db, t))
    (h : t.provided step latencyMs = some t') : Undisturbed (db, t') := by
  have hplace : AtPlace db t t.pc := hs.place
  unfold Turn.provided at h
  split at h
  · rename_i f hpc
    rw [hpc] at hplace
    split at h
    · obtain rfl := Option.some.inj h
      refine ⟨hs.background, hs.unsettled, ?_, hplace.2⟩
      rw [Turn.emit, deltasOf_append, hplace.1]
      rfl
    · obtain rfl := Option.some.inj h
      exact ⟨hs.background, hs.unsettled, hplace⟩
    · obtain rfl := Option.some.inj h
      exact ⟨hs.background, hs.unsettled, hplace⟩
    · obtain rfl := Option.some.inj h
      exact ⟨hs.background, hs.unsettled, hplace⟩
    · obtain rfl := Option.some.inj h
      exact ⟨hs.background, hs.unsettled, hplace⟩
    · obtain rfl := Option.some.inj h
      exact ⟨hs.background, hs.unsettled, hplace⟩
    · obtain rfl := Option.some.inj h
      exact ⟨hs.background, hs.unsettled, trivial⟩
  · exact nomatch h

/-- **Every undisturbed step keeps the invariant.** -/
theorem undisturbed_step {s s' : Db × Turn} {c : Choice} (hc : c.isOrdinary = true)
    (hs : Undisturbed s) (h : soloStep cfg s c = some s') : Undisturbed s' := by
  obtain ⟨db, t⟩ := s
  obtain ⟨db', t'⟩ := s'
  cases c with
  | resume =>
    obtain ⟨rfl, h⟩ := step_moved h
    exact undisturbed_resume hs h
  | retrieved r =>
    obtain ⟨rfl, h⟩ := step_moved h
    exact undisturbed_retrieved hs h
  | provider step latencyMs =>
    obtain ⟨rfl, h⟩ := step_moved h
    exact undisturbed_provided hs h
  | commit => exact undisturbed_commit hs h
  | background k =>
    obtain ⟨buffer, hbuffer, -⟩ := Option.map_eq_some_iff.mp h
    have hnil : t.background = [] := hs.background
    rw [hnil] at hbuffer
    exact nomatch hbuffer
  | settle k commits =>
    obtain ⟨txn, htxn, -⟩ := Option.map_eq_some_iff.mp h
    have hnil : t.unsettled = [] := hs.unsettled
    rw [hnil] at htxn
    exact nomatch htxn
  | close =>
    obtain ⟨rfl, h⟩ := step_moved h
    exact undisturbed_close hs h
  | cancel => exact nomatch hc
  | fail lost => exact nomatch hc
  | backgroundFail k lost => exact nomatch hc

/-! ## 4. After an interruption that a handler has seen -/

/-- The generator has ended, or the handler of a GeneratorExit awaits its saving. -/
def Pc.Stopped (pc : Pc) : Prop := (∃ how, pc = .ended how) ∨ ∃ f, pc = .closing f

/-- Where the generator has stopped, only savings go on. -/
theorem stopped_step {c : Choice} {s' : Db × Turn} (hpc : t.pc.Stopped) (hc : c.isOrdinary = true)
    (h : t.step cfg db c = some s') :
    c = .commit ∨ (∃ k, c = .background k) ∨ ∃ k commits, c = .settle k commits := by
  have hnone : t.resume = none ∧ t.close = none ∧ (∀ r, t.retrieved cfg r = none) ∧
      ∀ step latencyMs, t.provided step latencyMs = none := by
    rcases hpc with ⟨how, hpc⟩ | ⟨f, hpc⟩
    · simp [Turn.resume, Turn.close, Turn.retrieved, Turn.provided, hpc, Pc.isYield]
    · simp [Turn.resume, Turn.close, Turn.retrieved, Turn.provided, hpc, Pc.isYield]
  obtain ⟨hresume, hclose, hretrieved, hprovided⟩ := hnone
  cases c with
  | resume => simp [Turn.step, hresume] at h
  | close => simp [Turn.step, hclose] at h
  | retrieved r => simp [Turn.step, hretrieved] at h
  | provider step latencyMs => simp [Turn.step, hprovided] at h
  | commit => exact Or.inl rfl
  | background k => exact Or.inr (Or.inl ⟨k, rfl⟩)
  | settle k commits => exact Or.inr (Or.inr ⟨k, commits, rfl⟩)
  | cancel => exact nomatch hc
  | fail lost => exact nomatch hc
  | backgroundFail k lost => exact nomatch hc

/-- The text is saved, or something that runs will save it; and nothing else is saved. -/
structure Covered (texts : List Text) (s : Db × Turn) : Prop where
  pc : (∃ how, s.2.pc = .ended how) ∨ ∃ f, s.2.pc = .closing f ∧ f.buffer = texts
  messages : ∀ m ∈ s.1.messagesOf s.2.id, Keeps s.2 texts m
  unsettled : ∀ txn ∈ s.2.unsettled, txn.Of s.2.id ∧ ∀ m ∈ txn.message, Keeps s.2 texts m
  background : ∀ buffer ∈ s.2.background, buffer = texts
  source : s.1.messagesOf s.2.id ≠ [] ∨ s.2.background ≠ [] ∨ s.2.pc.isEnded = false

theorem Keeps.congr {m : MessageRow} (h : Keeps t texts m)
    (hconv : t'.conversationId = t.conversationId) : Keeps t' texts m :=
  ⟨h.conversationId.trans hconv.symm, h.role, h.content⟩

theorem Covered.stopped {s : Db × Turn} (h : Covered texts s) : s.2.pc.Stopped :=
  h.pc.imp id fun ⟨f, hpc, _⟩ => ⟨f, hpc⟩

theorem Covered.answered {s : Db × Turn} (h : Covered texts s) (hq : s.2.Quiescent) :
    Answered s.1 s.2.id s.2.conversationId texts := by
  rcases h.source with hsome | hbackground | hrunning
  · exact Saved.answered ⟨hsome, h.messages⟩
  · exact absurd hq.background hbackground
  · rw [hq.pc] at hrunning
    exact nomatch hrunning

/-- The handler of a GeneratorExit saves. -/
theorem covered_commit (hs : Covered texts (db, t))
    (h : t.step cfg db .commit = some (db', t')) : Covered texts (db', t') := by
  obtain ⟨txn, htxn, heq⟩ := Option.map_eq_some_iff.mp h
  rcases hs.pc with ⟨how, hpc⟩ | ⟨f, hpc, rfl⟩
  · have hpc : t.pc = .ended how := hpc
    simp [Turn.saving, hpc] at htxn
  · have hpc : t.pc = .closing f := hpc
    have hafter : ∀ saved, t.afterSave saved = { t with pc := .ended .generatorExit } := by
      intro saved
      simp only [Turn.afterSave, hpc]
    have hdb : db' = db.attempt txn ∧ t' = { t with pc := .ended .generatorExit } := by
      unfold Db.attempt
      split at heq
      · rename_i db₁ hcommit
        obtain ⟨rfl, rfl⟩ := Prod.mk.inj heq
        exact ⟨by rw [hcommit]; rfl, hafter true⟩
      · rename_i hcommit
        obtain ⟨rfl, rfl⟩ := Prod.mk.inj heq
        exact ⟨by rw [hcommit]; rfl, hafter false⟩
    obtain ⟨rfl, rfl⟩ := hdb
    obtain rfl : t.cancelledTxn cfg f.buffer = txn := by simpa [Turn.saving, hpc] using htxn
    have hsaved : Saved (db.attempt (t.cancelledTxn cfg f.buffer)) t f.buffer :=
      attempt_saved (saving_of htxn) rfl cancelledTxn_keeps hs.messages
    refine ⟨Or.inl ⟨_, rfl⟩, ?_, ?_, hs.background, Or.inl hsaved.some⟩
    · exact fun m hm => (hsaved.keeps m hm).congr rfl
    · exact fun txn htxn =>
        ⟨(hs.unsettled txn htxn).1, fun m hm => ((hs.unsettled txn htxn).2 m hm).congr rfl⟩

/-- A background task saves the text. -/
theorem covered_background {k : Nat} (htexts : texts ≠ []) (hs : Covered texts (db, t))
    (h : t.step cfg db (.background k) = some (db', t')) : Covered texts (db', t') := by
  obtain ⟨buffer, hbuffer, heq⟩ := Option.map_eq_some_iff.mp h
  obtain rfl : buffer = texts := hs.background buffer (List.mem_of_getElem? hbuffer)
  have htask : t.backgroundTxn cfg buffer = some (t.cancelledTxn cfg buffer) := by
    simp [Turn.backgroundTxn, htexts]
  simp only [htask] at heq
  obtain ⟨rfl, rfl⟩ := Prod.mk.inj heq
  have hsaved : Saved (db.attempt (t.cancelledTxn cfg buffer)) t buffer :=
    attempt_saved (backgroundTxn_of htask) rfl cancelledTxn_keeps hs.messages
  refine ⟨hs.pc, ?_, ?_, ?_, Or.inl hsaved.some⟩
  · exact fun m hm => (hsaved.keeps m hm).congr rfl
  · exact fun txn htxn =>
      ⟨(hs.unsettled txn htxn).1, fun m hm => ((hs.unsettled txn htxn).2 m hm).congr rfl⟩
  · exact fun buffer' hmem => hs.background buffer' (List.mem_of_mem_eraseIdx hmem)

/-- Whatever the database does with what was cut off, the text stays covered. -/
theorem covered_settle {k : Nat} {commits : Bool} (hs : Covered texts (db, t))
    (h : t.step cfg db (.settle k commits) = some (db', t')) : Covered texts (db', t') := by
  obtain ⟨txn, htxn, heq⟩ := Option.map_eq_some_iff.mp h
  obtain ⟨rfl, rfl⟩ := Prod.mk.inj heq
  obtain ⟨hof, hkeeps⟩ := hs.unsettled txn (List.mem_of_getElem? htxn)
  obtain ⟨hall, hthere⟩ := attempt_keeps hof hkeeps hs.messages
  have hleft : ∀ txn' ∈ t.unsettled.eraseIdx k, txn'.Of t.id ∧
      ∀ m ∈ txn'.message, Keeps t texts m :=
    fun txn' hmem => hs.unsettled txn' (List.mem_of_mem_eraseIdx hmem)
  refine ⟨hs.pc, ?_, ?_, hs.background, ?_⟩
  · cases commits with
    | true => exact fun m hm => (hall m hm).congr rfl
    | false => exact fun m hm => (hs.messages m hm).congr rfl
  · exact fun txn' hmem => ⟨(hleft txn' hmem).1, fun m hm => ((hleft txn' hmem).2 m hm).congr rfl⟩
  · rcases hs.source with hsome | hrest
    · cases commits with
      | true => exact Or.inl (hthere hsome)
      | false => exact Or.inl hsome
    · exact Or.inr hrest

/-- **Every later step keeps the text covered.** -/
theorem covered_step {s s' : Db × Turn} {c : Choice} (htexts : texts ≠ [])
    (hc : c.isOrdinary = true) (hs : Covered texts s) (h : soloStep cfg s c = some s') :
    Covered texts s' := by
  rcases stopped_step hs.stopped hc h with rfl | ⟨k, rfl⟩ | ⟨k, commits, rfl⟩
  · exact covered_commit hs h
  · exact covered_background htexts hs h
  · exact covered_settle hs h

/-! ## 5. After a cancellation that no handler has seen -/

/-- All that is left of the text is a transaction that was cut off. -/
structure CutOff (texts : List Text) (s : Db × Turn) : Prop where
  pc : ∃ how, s.2.pc = .ended how
  background : s.2.background = []
  messages : s.1.messagesOf s.2.id = []
  unsettled : ∃ txn, s.2.unsettled = [txn] ∧ txn.Of s.2.id ∧ txn.message.isSome = true ∧
    ∀ m ∈ txn.message, Keeps s.2 texts m

theorem Turn.Quiescent.stuck {c : Choice} (hq : t.Quiescent) (hc : c.isOrdinary = true) :
    t.step cfg db c = none := by
  obtain ⟨how, hpc⟩ : ∃ how, t.pc = .ended how := by
    have hended := hq.pc
    cases hpc : t.pc with
    | ended how => exact ⟨how, rfl⟩
    | _ => simp [hpc, Pc.isEnded] at hended
  cases h : t.step cfg db c with
  | none => rfl
  | some s' =>
    rcases stopped_step (Or.inl ⟨how, hpc⟩) hc h with rfl | ⟨k, rfl⟩ | ⟨k, commits, rfl⟩
    · simp [Turn.step, Turn.saving, hpc] at h
    · simp [Turn.step, hq.background] at h
    · simp [Turn.step, hq.unsettled] at h

/-- The database alone decides, and then nothing is left to run. -/
theorem cutOff_step {c : Choice} (hs : CutOff texts (db, t)) (hc : c.isOrdinary = true)
    (h : t.step cfg db c = some (db', t')) :
    ∃ commits, c = .settle 0 commits ∧ t'.Quiescent ∧
      (Answered db' t'.id t'.conversationId texts ↔ commits = true) := by
  obtain ⟨how, hpc⟩ := hs.pc
  obtain ⟨txn, hunsettled, hof, hsome, hkeeps⟩ := hs.unsettled
  have hpc : t.pc = .ended how := hpc
  have hbackground : t.background = [] := hs.background
  have hunsettled : t.unsettled = [txn] := hunsettled
  have hnone : db.messagesOf t.id = [] := hs.messages
  rcases stopped_step (Or.inl ⟨how, hpc⟩) hc h with rfl | ⟨k, rfl⟩ | ⟨k, commits, rfl⟩
  · simp [Turn.step, Turn.saving, hpc] at h
  · simp [Turn.step, hbackground] at h
  · obtain ⟨txn', htxn', heq⟩ := Option.map_eq_some_iff.mp h
    rw [hunsettled] at htxn' heq
    obtain ⟨rfl, rfl⟩ : k = 0 ∧ txn' = txn := by
      cases k with
      | zero => exact ⟨rfl, (Option.some.inj htxn').symm⟩
      | succ k => exact nomatch htxn'
    obtain ⟨rfl, rfl⟩ := Prod.mk.inj heq
    refine ⟨commits, rfl, ⟨by simp [hpc, Pc.isEnded], hbackground, rfl⟩, ?_⟩
    cases commits with
    | true =>
      have hsaved : Saved (db.attempt txn') t texts := by
        refine attempt_saved hof hsome hkeeps ?_
        intro m hm
        rw [hnone] at hm
        exact nomatch hm
      exact ⟨fun _ => rfl, fun _ => (hsaved.congr rfl rfl).answered⟩
    | false =>
      exact ⟨fun hanswered => (not_answered hnone hanswered).elim, fun hcommits => nomatch hcommits⟩

/-- **The text is saved exactly if the database commits what was cut off.** -/
theorem cutOff_run {s s' : Db × Turn} {after : List Choice} (hs : CutOff texts s)
    (hafter : ∀ c ∈ after, c.isOrdinary = true) (hrun : run (soloStep cfg) s after = some s')
    (hq : s'.2.Quiescent) :
    Answered s'.1 s'.2.id s'.2.conversationId texts ↔ Choice.settle 0 true ∈ after := by
  cases after with
  | nil =>
    obtain rfl := Option.some.inj hrun
    obtain ⟨txn, hunsettled, -⟩ := hs.unsettled
    exact absurd hq.unsettled (by simp [hunsettled])
  | cons c rest =>
    obtain ⟨s₁, hstep, hrest⟩ := Option.bind_eq_some_iff.mp hrun
    obtain ⟨commits, rfl, hq₁, hanswered⟩ := cutOff_step hs (hafter c List.mem_cons_self) hstep
    cases rest with
    | nil =>
      obtain rfl := Option.some.inj hrest
      rw [hanswered]
      cases commits <;> simp
    | cons c' rest =>
      obtain ⟨s₂, hstep', -⟩ := Option.bind_eq_some_iff.mp hrest
      have hstuck : s₁.2.step cfg s₁.1 c' = none := hq₁.stuck (hafter c' (by simp))
      rw [soloStep, hstuck] at hstep'
      exact nomatch hstep'

/-! ## 6. The interruption -/

/-- With text emitted, an undisturbed turn has saved nothing but this text. -/
theorem undisturbed_messages (hs : Undisturbed (db, t)) (hne : deltasOf t.emitted ≠ [])
    (hrunning : t.pc.isEnded = false) :
    ∀ m ∈ db.messagesOf t.id, Keeps t (deltasOf t.emitted) m := by
  have hplace : AtPlace db t t.pc := hs.place
  have hnone : db.messagesOf t.id = [] →
      ∀ m ∈ db.messagesOf t.id, Keeps t (deltasOf t.emitted) m := by
    intro hnil m hm
    rw [hnil] at hm
    exact nomatch hm
  cases hpc : t.pc with
  | yieldStreamError f =>
    rw [hpc] at hplace
    obtain ⟨hbuffer, hsaved⟩ := hplace
    rw [hbuffer] at hne ⊢
    exact (hsaved hne).keeps
  | yieldLast =>
    rw [hpc] at hplace
    exact (hplace hne).keeps
  | closing f =>
    rw [hpc] at hplace
    obtain ⟨hbuffer, hnil | hsaved⟩ := hplace
    · exact hnone hnil
    · exact hbuffer ▸ hsaved.keeps
  | ended how => simp [hpc, Pc.isEnded] at hrunning
  | _ =>
    rw [hpc] at hplace
    exact hnone hplace.2

/-- Inside the `try` block the buffer is the text that was emitted. -/
theorem undisturbed_buffer (hs : Undisturbed (db, t)) (hf : t.pc.inTry = some f) :
    f.buffer = deltasOf t.emitted := by
  have hplace : AtPlace db t t.pc := hs.place
  cases hpc : t.pc with
  | streaming g | yieldDelta g | saveStreamError g code message | yieldStreamError g =>
    rw [hpc] at hplace hf
    obtain rfl : g = f := Option.some.inj hf
    exact hplace.1.symm
  | _ =>
    rw [hpc] at hf
    exact nomatch hf

/-- Every saving keeps the text that was emitted. -/
theorem undisturbed_saving {txn : Txn} (hs : Undisturbed (db, t)) (htxn : t.saving cfg = some txn) :
    ∀ m ∈ txn.message, Keeps t (deltasOf t.emitted) m := by
  have hplace : AtPlace db t t.pc := hs.place
  unfold Turn.saving at htxn
  split at htxn
  · obtain rfl := Option.some.inj htxn
    exact fun m hm => nomatch hm
  · rename_i hpc
    rw [hpc] at hplace
    obtain rfl := Option.some.inj htxn
    exact hplace.1 ▸ errorTxn_keeps _
  · rename_i hpc
    rw [hpc] at hplace
    obtain rfl := Option.some.inj htxn
    exact hplace.1 ▸ cancelledTxn_keeps
  · rename_i hpc
    rw [hpc] at hplace
    obtain rfl := Option.some.inj htxn
    exact hplace.1 ▸ successTxn_keeps _
  · exact nomatch htxn

/-- Text that is not saved is in a buffer inside the `try` block, or in a saving behind it. -/
theorem undisturbed_source (hs : Undisturbed (db, t)) (hne : deltasOf t.emitted ≠ [])
    (hrunning : t.pc.isEnded = false) :
    db.messagesOf t.id ≠ [] ∨ (∃ f, t.pc.inTry = some f) ∨ t.pc.savesOutsideTry = true := by
  have hplace : AtPlace db t t.pc := hs.place
  cases hpc : t.pc with
  | yieldStart | retrieving | yieldCitations =>
    rw [hpc] at hplace
    exact absurd hplace.1 hne
  | streaming f | yieldDelta f | saveStreamError f code message | yieldStreamError f =>
    exact Or.inr (Or.inl ⟨f, rfl⟩)
  | saveRetrievalError code message | closing f | saveSuccess f latencyMs =>
    exact Or.inr (Or.inr rfl)
  | yieldLast =>
    rw [hpc] at hplace
    exact Or.inl (hplace hne).some
  | ended how => simp [hpc, Pc.isEnded] at hrunning

theorem covered_close (hs : Undisturbed (db, t)) (hne : deltasOf t.emitted ≠ [])
    (h : t.close = some t') : Covered (deltasOf t.emitted) (db, t') := by
  unfold Turn.close at h
  split at h
  · rename_i hyield
    have hrunning : t.pc.isEnded = false := by
      cases hpc : t.pc <;> simp_all [Pc.isYield, Pc.isEnded]
    have hinside : t.pc.savesOutsideTry = false := by
      cases hpc : t.pc <;> simp_all [Pc.isYield, Pc.savesOutsideTry]
    have hmessages := undisturbed_messages hs hne hrunning
    have hbackground : t.background = [] := hs.background
    have hunsettled : t.unsettled = [] := hs.unsettled
    cases htry : t.pc.inTry with
    | some f =>
      have hbuffer := undisturbed_buffer hs htry
      have hsome : f.buffer ≠ [] := hbuffer ▸ hne
      simp only [htry, hsome, if_false] at h
      obtain rfl := Option.some.inj h
      refine ⟨Or.inr ⟨f, rfl, hbuffer⟩, fun m hm => (hmessages m hm).congr rfl, ?_, ?_,
        Or.inr (Or.inr rfl)⟩
      · simp [hunsettled]
      · simp [hbackground]
    | none =>
      simp only [htry] at h
      obtain rfl := Option.some.inj h
      refine ⟨Or.inl ⟨_, rfl⟩, fun m hm => (hmessages m hm).congr rfl, ?_, ?_, Or.inl ?_⟩
      · simp [hunsettled]
      · simp [hbackground]
      · rcases undisturbed_source hs hne hrunning with hsome | ⟨f, hf⟩ | houtside
        · exact hsome
        · exact absurd (htry.symm.trans hf) (by simp)
        · exact absurd (hinside.symm.trans houtside) (by simp)
  · exact nomatch h

/-- What a cancellation cuts off is the saving that was awaited. -/
theorem cancel_unsettled (cfg : Config) (hs : Undisturbed (db, t)) :
    ∀ txn ∈ t.unsettled ++ (t.saving cfg).toList,
      txn.Of t.id ∧ ∀ m ∈ txn.message, Keeps t (deltasOf t.emitted) m := by
  have hunsettled : t.unsettled = [] := hs.unsettled
  intro txn hmem
  rw [hunsettled, List.nil_append, Option.mem_toList] at hmem
  exact ⟨saving_of hmem, undisturbed_saving hs hmem⟩

theorem covered_cancel (hs : Undisturbed (db, t)) (hne : deltasOf t.emitted ≠ [])
    (hguarded : t.pc.savesOutsideTry = true → db.messagesOf t.id ≠ [])
    (h : t.cancel cfg = some t') : Covered (deltasOf t.emitted) (db, t') := by
  obtain ⟨hrunning, rfl⟩ := cancel_eq h
  have hmessages := undisturbed_messages hs hne hrunning
  have hunsettled := cancel_unsettled cfg hs
  have hbackground : t.background = [] := hs.background
  refine ⟨Or.inl ⟨_, rfl⟩, fun m hm => (hmessages m hm).congr rfl, ?_, ?_, ?_⟩
  · exact fun txn htxn =>
      ⟨(hunsettled txn htxn).1, fun m hm => ((hunsettled txn htxn).2 m hm).congr rfl⟩
  · intro buffer hbuffer
    simp only [hbackground, List.nil_append, Option.mem_toList] at hbuffer
    obtain ⟨f, hf, rfl⟩ := Option.map_eq_some_iff.mp hbuffer
    exact undisturbed_buffer hs hf
  · rcases undisturbed_source hs hne hrunning with hsome | ⟨f, hf⟩ | houtside
    · exact Or.inl hsome
    · exact Or.inr (Or.inl (by simp [hf]))
    · exact Or.inl (hguarded houtside)

/-- **A cancellation behind the `try` block leaves the text to the transaction it cuts off.** -/
theorem cutOff_cancel (hs : Undisturbed (db, t)) (hne : deltasOf t.emitted ≠ [])
    (houtside : t.pc.savesOutsideTry = true) (hnone : db.messagesOf t.id = [])
    (h : t.cancel cfg = some t') : CutOff (deltasOf t.emitted) (db, t') := by
  have hunsettled := cancel_unsettled cfg hs
  have hnil : t.unsettled = [] := hs.unsettled
  have hbackground : t.background = [] := hs.background
  have hplace : AtPlace db t t.pc := hs.place
  have hsaving : t.pc.inTry = none ∧ ∃ txn, t.saving cfg = some txn ∧
    txn.message.isSome = true := by
    cases hpc : t.pc with
    | saveRetrievalError code message =>
      rw [hpc] at hplace
      exact absurd hplace.1 hne
    | closing f => exact ⟨rfl, t.cancelledTxn cfg f.buffer, by simp only [Turn.saving, hpc], rfl⟩
    | saveSuccess f latencyMs =>
      exact ⟨rfl, t.successTxn cfg f latencyMs, by simp only [Turn.saving, hpc], rfl⟩
    | _ => simp [hpc, Pc.savesOutsideTry] at houtside
  obtain ⟨htry, txn, htxn, hsome⟩ := hsaving
  obtain ⟨hof, hkeeps⟩ := hunsettled txn (by simp [htxn])
  obtain ⟨-, rfl⟩ := cancel_eq h
  refine ⟨⟨_, rfl⟩, ?_, hnone, txn, ?_, hof, hsome, fun m hm => (hkeeps m hm).congr rfl⟩
  · simp [hbackground, htry]
  · simp [hnil, htxn]

/-! ## 7. The result -/

theorem undisturbed_start (ctx : AuthContext) (conversationId : Id) (prepared : Prepared)
    (hfresh : Fresh db prepared.assistantMessageId) :
    Undisturbed (db, Turn.start ctx conversationId prepared) where
  background := rfl
  unsettled := rfl
  place := ⟨rfl, hfresh.messages⟩

theorem guarded_ordinary {cs : List Choice} {s : Db × Turn}
    (h : ∀ c ∈ cs, c.isOrdinary = true) :
    Guarded (soloStep cfg) (fun _ c => c.isOrdinary = true) s cs := by
  induction cs generalizing s with
  | nil => trivial
  | cons c cs ih =>
    exact ⟨h c List.mem_cons_self, fun _ _ => ih fun c' hc' => h c' (List.mem_cons_of_mem c hc')⟩

/-- A run keeps the turn's id and its conversation. -/
theorem run_same {cs : List Choice} {s s' : Db × Turn} (h : run (soloStep cfg) s cs = some s') :
    s'.2.id = s.2.id ∧ s'.2.conversationId = s.2.conversationId := by
  have hkept : ∀ (u : Db × Turn) (c : Choice) (u' : Db × Turn),
      (u.2.id = s.2.id ∧ u.2.conversationId = s.2.conversationId) → soloStep cfg u c = some u' →
      u'.2.id = s.2.id ∧ u'.2.conversationId = s.2.conversationId := by
    rintro u c ⟨db', t'⟩ ⟨hid, hconv⟩ hstep
    obtain ⟨hid', hconv'⟩ := step_same hstep
    exact ⟨hid'.trans hid, hconv'.trans hconv⟩
  exact run_invariant_of_step hkept ⟨rfl, rfl⟩ h

/-- **What an interruption leaves of the text.**  The conversation has all text emitted before an
interruption, at any place of the turn, if and only if the interruption does not land in a saving
outside the `try` block, with no message saved before, whose transaction the database then does
not commit. -/
theorem disconnect {cfg : Config} {db : Db} {ctx : AuthContext} {conversationId : Id}
    {prepared : Prepared} {before after : List Choice} {c : Choice} {s s' : Db × Turn}
    (h : Interrupted cfg db ctx conversationId prepared before c after s s') :
    Answered s'.1 prepared.assistantMessageId conversationId (deltasOf s.2.emitted) ↔
      ¬ (s.2.pc.savesOutsideTry = true ∧ s.1.messagesOf prepared.assistantMessageId = [] ∧
        Choice.settle 0 true ∉ after) := by
  obtain ⟨hfresh, hbefore, hc, hafter, hrun, htext, hrun', hq⟩ := h
  have hs : Undisturbed s := run_invariant (fun _ _ _ hi hc hstep => undisturbed_step hc hi hstep)
    (undisturbed_start ctx conversationId prepared hfresh) (guarded_ordinary hbefore) hrun
  obtain ⟨hid, hconv⟩ : s.2.id = prepared.assistantMessageId ∧
    s.2.conversationId = conversationId := run_same hrun
  obtain ⟨hid', hconv'⟩ := run_same hrun'
  rw [← hid, ← hconv, ← hid', ← hconv', hid']
  obtain ⟨⟨db₁, t₁⟩, hstep, hrest⟩ := Option.bind_eq_some_iff.mp hrun'
  obtain ⟨db₀, t⟩ := s
  have hcovered : Covered (deltasOf t.emitted) (db₁, t₁) →
      Answered s'.1 t.id s'.2.conversationId (deltasOf t.emitted) := by
    intro hcov
    rw [← hid']
    refine Covered.answered ?_ hq
    exact run_invariant (fun _ _ _ hi hc hstep => covered_step htext hc hi hstep) hcov
      (guarded_ordinary hafter) hrest
  cases c with
  | close =>
    obtain ⟨t₂, ht₂, heq⟩ := Option.map_eq_some_iff.mp hstep
    obtain ⟨rfl, rfl⟩ := Prod.mk.inj heq
    refine iff_of_true (hcovered (covered_close hs htext ht₂)) ?_
    rintro ⟨houtside, -⟩
    cases hpc : t.pc <;> simp_all [Turn.close, Pc.isYield, Pc.savesOutsideTry]
  | cancel =>
    obtain ⟨t₂, ht₂, heq⟩ := Option.map_eq_some_iff.mp hstep
    obtain ⟨rfl, rfl⟩ := Prod.mk.inj heq
    by_cases houtside : t.pc.savesOutsideTry = true ∧ db₀.messagesOf t.id = []
    · have hcut := cutOff_cancel hs htext houtside.1 houtside.2 ht₂
      rw [← hid', cutOff_run hcut hafter hrest hq]
      simp [houtside.1, houtside.2, hid']
    · refine iff_of_true (hcovered (covered_cancel hs htext ?_ ht₂)) ?_
      · exact fun hout hnone => houtside ⟨hout, hnone⟩
      · rintro ⟨hout, hnone, -⟩
        exact houtside ⟨hout, hnone⟩
  | _ => exact nomatch hc

/-- A run of the small instance, cancelled after `before`. -/
def sampleRun (before after : List Choice) : Option ((Db × Turn) × (Db × Turn)) :=
  (run (soloStep sampleConfig) (.empty, Turn.start sampleContext 0 samplePrepared) before).bind
    fun s => (run (soloStep sampleConfig) s (.cancel :: after)).map fun s' => (s, s')

theorem sampleRun_interrupted (before after : List Choice)
    (hbefore : ∀ c ∈ before, c.isOrdinary = true) (hafter : ∀ c ∈ after, c.isOrdinary = true)
    (h : (sampleRun before after).map (fun p => (deltasOf p.1.2.emitted, p.2.2.pc.isEnded,
      p.2.2.background, p.2.2.unsettled)) = some ([['a']], true, [], [])) :
    ∃ s s' : Db × Turn, sampleRun before after = some (s, s') ∧ deltasOf s.2.emitted = [['a']] ∧
      Interrupted sampleConfig .empty sampleContext 0 samplePrepared before .cancel after s s' := by
  obtain ⟨⟨s, s'⟩, hrun, heq⟩ := Option.map_eq_some_iff.mp h
  simp only [Prod.mk.injEq] at heq
  obtain ⟨htext, hended, hbackground, hunsettled⟩ := heq
  obtain ⟨s₁, hs, hrest⟩ := Option.bind_eq_some_iff.mp hrun
  obtain ⟨s₂, hs', hpair⟩ := Option.map_eq_some_iff.mp hrest
  obtain ⟨rfl, rfl⟩ := Prod.mk.inj hpair
  exact ⟨s₁, s₂, hrun, htext, ⟨rfl, rfl, rfl⟩, hbefore, rfl, hafter, hs, by simp [htext], hs',
    hended, hbackground, hunsettled⟩

/-- One delta, and then the task is cancelled at the `yield`: the background task saves. -/
theorem disconnect_atYield : ∃ s s' : Db × Turn,
    sampleRun (deltaThenError.take 2) [.background 0] = some (s, s') ∧
      Answered s'.1 1 0 [['a']] := by
  obtain ⟨s, s', hrun, htext, h⟩ := sampleRun_interrupted (deltaThenError.take 2) [.background 0]
    (by decide) (by decide) (by decide)
  refine ⟨s, s', hrun, ?_⟩
  rw [← htext]
  refine (disconnect h).mpr ?_
  rintro ⟨houtside, -⟩
  have hinside : (sampleRun (deltaThenError.take 2) [.background 0]).map
      (fun p => p.1.2.pc.savesOutsideTry) = some false := by decide
  rw [hrun] at hinside
  exact absurd (Option.some.inj hinside) (by simp [houtside])

/-- One delta and a stop; the task is cancelled while `_persist_success` runs. -/
def deltaThenStop : List Choice :=
  [.resume, .provider (.event (.textDelta ['a'])) 0, .resume, .provider (.event (.stop .endTurn)) 0]

/-- **The text can be lost.** -/
theorem not_disconnect :
    ¬ ∀ (cfg : Config) (db : Db) (ctx : AuthContext) (conversationId : Id) (prepared : Prepared)
      (before after : List Choice) (c : Choice) (s s' : Db × Turn),
      Interrupted cfg db ctx conversationId prepared before c after s s' →
      Answered s'.1 prepared.assistantMessageId conversationId (deltasOf s.2.emitted) := by
  intro hall
  obtain ⟨s, s', hrun, -, h⟩ := sampleRun_interrupted deltaThenStop [.settle 0 false]
    (by decide) (by decide) (by decide)
  have hnone : (sampleRun deltaThenStop [.settle 0 false]).map (fun p => p.2.1.messages.rows)
      = some [] := by decide
  rw [hrun] at hnone
  obtain ⟨m, hmem, -⟩ := hall _ _ _ _ _ _ _ _ s s' h
  have hnil : s'.1.messages.rows = [] := Option.some.inj hnone
  rw [hnil] at hmem
  exact nomatch hmem

end AtlasKnowledge.Chat
