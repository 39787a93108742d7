/-
# A turn is saved once

Up to two saving transactions can run for one turn: the error event is yielded inside the `try`
block whose handlers save a cancelled partial, and a cancellation in the middle of one saving
starts another in the background.  `messages.id` lets only one of them commit when both carry a
message.  The usage row has no key of its own, and is protected in two ways: it shares its
transaction with the message, and a turn with an empty buffer saves only once, since the
handlers have nothing to save then.

* `Phase`: a turn has saved nothing yet, saves transactions with a message, or has saved or will
  save one transaction without a message;
* `saved_once`: any number of turns in any interleaving, in every reachable state.
-/
import AtlasKnowledge.Chat.Rows
import AtlasKnowledge.Lib.Interleave
import AtlasKnowledge.Lib.Transition

namespace AtlasKnowledge.Chat

open Interleave Transition

/-! ## 1. Several turns -/

/-- The tables and the turns. -/
abbrev Sys := Par Db Turn

/-- The turn at a position takes a step. -/
def Sys.step (cfg : Config) (s : Sys) (l : Nat × Choice) : Option Sys :=
  s.act (Turn.step cfg) l.1 l.2

/-- The id is on one message and one usage row at most, and its citations are that message's. -/
structure SavedOnce (db : Db) (id : Id) : Prop where
  message : (db.messagesOf id).length ≤ 1
  usage : (db.usageOf id).length ≤ 1
  citations : ∀ c ∈ db.citationsOf id, ∃ m ∈ db.messages.rows, m.id = c.messageId ∧
    ∀ m' ∈ db.messages.rows, m'.id = c.messageId → m' = m

/-! ## 2. The phases of a turn -/

/-- No saving has begun. -/
def Pc.isEarly : Pc → Bool
  | .yieldStart => true
  | .retrieving => true
  | .yieldCitations => true
  | .streaming _ => true
  | .yieldDelta _ => true
  | _ => false

/-- A saving has begun, and there is text to save. -/
def Pc.isBuffered : Pc → Bool
  | .saveStreamError f _ _ => f.buffer ≠ []
  | .yieldStreamError f => f.buffer ≠ []
  | .closing _ => true
  | .saveSuccess _ _ => true
  | .yieldLast => true
  | .ended _ => true
  | _ => false

/-- A saving has begun, and there is no text to save. -/
def Pc.isBare : Pc → Bool
  | .saveRetrievalError _ _ => true
  | .saveStreamError f _ _ => f.buffer = []
  | .yieldStreamError f => f.buffer = []
  | .yieldLast => true
  | .ended _ => true
  | _ => false

/-- The savings without a message that may still commit. -/
def Turn.pending (cfg : Config) (t : Turn) : Nat :=
  t.unsettled.length + (t.saving cfg).toList.length

/-- **What a turn has saved and may still save.** -/
inductive Phase (cfg : Config) (db : Db) (t : Turn) : Prop where
  /-- Nothing yet. -/
  | early (pc : t.pc.isEarly = true) (fresh : Fresh db t.id) (background : t.background = [])
      (unsettled : t.unsettled = [])
  /-- Every transaction has a message. -/
  | buffered (pc : t.pc.isBuffered = true)
      (usage : (db.usageOf t.id).length = (db.messagesOf t.id).length)
      (citations : db.messagesOf t.id = [] → db.citationsOf t.id = [])
      (unsettled : ∀ txn ∈ t.unsettled, txn.message.isSome = true)
  /-- There is one transaction, without a message. -/
  | bare (pc : t.pc.isBare = true) (messages : db.messagesOf t.id = [])
      (citations : db.citationsOf t.id = []) (background : ∀ buffer ∈ t.background, buffer = [])
      (unsettled : ∀ txn ∈ t.unsettled, txn.message = none)
      (usage : (db.usageOf t.id).length + t.pending cfg ≤ 1)

variable {cfg : Config} {db db' : Db} {t t' : Turn} {txn : Txn}

theorem Phase.savedOnce (h : Phase cfg db t) : SavedOnce db t.id := by
  refine ⟨messagesOf_length_le db t.id, ?_, ?_⟩
  · cases h with
    | early _ fresh _ _ =>
      rw [fresh.usage]
      exact Nat.zero_le 1
    | buffered _ usage _ _ =>
      rw [usage]
      exact messagesOf_length_le db t.id
    | bare _ _ _ _ _ usage => omega
  · intro c hc
    have hid : c.messageId = t.id := by simpa [Db.citationsOf] using (List.mem_filter.mp hc).2
    have hsome : db.messagesOf t.id ≠ [] := by
      intro hnil
      have hempty : db.citationsOf t.id = [] := by
        cases h with
        | early _ fresh _ _ => exact fresh.citations
        | buffered _ _ citations _ => exact citations hnil
        | bare _ _ citations _ _ _ => exact citations
      rw [hempty] at hc
      cases hc
    obtain ⟨m, hm⟩ := List.exists_mem_of_ne_nil _ hsome
    obtain ⟨hmem, hmid⟩ := mem_messagesOf.mp hm
    refine ⟨m, hmem, hmid.trans hid.symm, ?_⟩
    intro m' hm' hmid'
    exact eq_of_message_id hm' hmem (hmid'.trans (hid.trans hmid.symm))

/-- The phase depends on the rows of the turn's own id only. -/
theorem Phase.congr (h : Phase cfg db t) (hsame : SameRows db db' t.id) : Phase cfg db' t := by
  cases h with
  | early pc fresh background unsettled =>
    refine .early pc ⟨?_, ?_, ?_⟩ background unsettled
    · rw [hsame.messages, fresh.messages]
    · rw [hsame.citations, fresh.citations]
    · rw [hsame.usage, fresh.usage]
  | buffered pc usage citations unsettled =>
    refine .buffered pc ?_ ?_ unsettled
    · rw [hsame.messages, hsame.usage, usage]
    · rw [hsame.messages, hsame.citations]
      exact citations
  | bare pc messages citations background unsettled usage =>
    refine .bare pc ?_ ?_ background unsettled ?_
    · rw [hsame.messages, messages]
    · rw [hsame.citations, citations]
    · rw [hsame.usage]
      exact usage

/-- A turn that has saved nothing, and whose pc has moved on to a saving with a message. -/
theorem Phase.buffered_of_fresh (pc : t.pc.isBuffered = true) (fresh : Fresh db t.id)
    (unsettled : t.unsettled = []) : Phase cfg db t := by
  refine .buffered pc ?_ (fun _ => fresh.citations) ?_
  · rw [fresh.usage, fresh.messages]
    rfl
  · intro txn htxn
    rw [unsettled] at htxn
    exact nomatch htxn

/-- ... or to the one without. -/
theorem Phase.bare_of_fresh (pc : t.pc.isBare = true) (fresh : Fresh db t.id)
    (background : t.background = []) (unsettled : t.unsettled = []) : Phase cfg db t := by
  refine .bare pc fresh.messages fresh.citations ?_ ?_ ?_
  · intro buffer hbuffer
    rw [background] at hbuffer
    exact nomatch hbuffer
  · intro txn htxn
    rw [unsettled] at htxn
    exact nomatch htxn
  · have hone : (t.saving cfg).toList.length ≤ 1 := by cases t.saving cfg <;> simp
    rw [fresh.usage, Turn.pending, unsettled]
    exact (Nat.zero_add _).symm ▸ (Nat.zero_add _).symm ▸ hone

/-! ## 3. Commits -/

/-- A transaction with a message keeps the buffered phase: it adds its message and its usage row
together, or neither. -/
theorem buffered_attempt (hof : txn.Of t.id) (hsome : txn.message.isSome = true)
    (usage : (db.usageOf t.id).length = (db.messagesOf t.id).length)
    (citations : db.messagesOf t.id = [] → db.citationsOf t.id = []) :
    ((db.attempt txn).usageOf t.id).length = ((db.attempt txn).messagesOf t.id).length ∧
      ((db.attempt txn).messagesOf t.id = [] → (db.attempt txn).citationsOf t.id = []) := by
  obtain ⟨row, hrow⟩ := Option.isSome_iff_exists.mp hsome
  rcases commit_cases db hof with ⟨db', hcommit, hmessages, -, husage⟩ | ⟨hcommit, -, -⟩
  · have hattempt : db.attempt txn = db' := by simp [Db.attempt, hcommit]
    rw [hattempt, hmessages, husage, hrow]
    refine ⟨by simp [usage], ?_⟩
    intro hnil
    exact absurd hnil (by simp)
  · have hattempt : db.attempt txn = db := by simp [Db.attempt, hcommit]
    rw [hattempt]
    exact ⟨usage, citations⟩

/-- A transaction without a message commits, and adds its usage row. -/
theorem bare_commit (db : Db) (hof : txn.Of t.id) (hnone : txn.message = none) :
    ∃ db', db.commit? txn = some db' ∧ db'.messagesOf t.id = db.messagesOf t.id ∧
      db'.citationsOf t.id = db.citationsOf t.id ∧
      (db'.usageOf t.id).length = (db.usageOf t.id).length + 1 := by
  rcases commit_cases db hof with ⟨db', hcommit, hm, hc, hu⟩ | ⟨-, hsome, -⟩
  · refine ⟨db', hcommit, ?_, ?_, ?_⟩
    · rw [hm, hnone]
      exact List.append_nil _
    · rw [hc, hnone]
      exact List.append_nil _
    · rw [hu, List.length_append]
      rfl
  · rw [hnone] at hsome
    exact nomatch hsome

/-- In the buffered phase, what is awaited has a message. -/
theorem saving_buffered (hpc : t.pc.isBuffered = true) (h : t.saving cfg = some txn) :
    txn.message.isSome = true := by
  unfold Turn.saving at h
  split at h
  · rename_i heq
    rw [heq] at hpc
    cases hpc
  · rename_i f code message heq
    rw [heq] at hpc
    have hbuffer : f.buffer ≠ [] := by simpa [Pc.isBuffered] using hpc
    obtain rfl := Option.some.inj h
    simp [Turn.errorTxn, hbuffer]
  · obtain rfl := Option.some.inj h
    rfl
  · obtain rfl := Option.some.inj h
    rfl
  · cases h

/-- In the bare phase, what is awaited has none. -/
theorem saving_bare (hpc : t.pc.isBare = true) (h : t.saving cfg = some txn) :
    txn.message = none := by
  unfold Turn.saving at h
  split at h
  · obtain rfl := Option.some.inj h
    rfl
  · rename_i f code message heq
    rw [heq] at hpc
    have hbuffer : f.buffer = [] := by simpa [Pc.isBare] using hpc
    obtain rfl := Option.some.inj h
    simp [Turn.errorTxn, hbuffer]
  · rename_i heq
    rw [heq] at hpc
    cases hpc
  · rename_i heq
    rw [heq] at hpc
    cases hpc
  · cases h

theorem saving_early (hpc : t.pc.isEarly = true) : t.saving cfg = none := by
  unfold Turn.saving
  split
  · rename_i heq
    rw [heq] at hpc
    exact nomatch hpc
  · rename_i heq
    rw [heq] at hpc
    exact nomatch hpc
  · rename_i heq
    rw [heq] at hpc
    exact nomatch hpc
  · rename_i heq
    rw [heq] at hpc
    exact nomatch hpc
  · rfl

/-! ## 4. Steps that leave the tables alone -/

/-- Where a step without a commit takes the turn: what is cut off was cut off before or was
awaited, and nothing is added to what may still be saved without a message. -/
structure Moves (cfg : Config) (t t' : Turn) : Prop where
  id : t'.id = t.id
  early : t.pc.isEarly = true →
    ((t'.pc.isEarly = true ∨ t'.pc.isBare = true) ∧ t'.background = t.background ∧
      t'.unsettled = t.unsettled) ∨ (t'.pc.isBuffered = true ∧ t'.unsettled = t.unsettled)
  buffered : t.pc.isBuffered = true → t'.pc.isBuffered = true
  bare : t.pc.isBare = true → t'.pc.isBare = true ∧
    (∀ buffer ∈ t'.background, buffer ∈ t.background ∨ buffer = []) ∧
    t'.pending cfg ≤ t.pending cfg
  unsettled : ∀ txn ∈ t'.unsettled, txn ∈ t.unsettled ∨ t.saving cfg = some txn ∨
    ∃ buffer ∈ t.background, t.backgroundTxn cfg buffer = some txn

theorem phase_moves (hp : Phase cfg db t) (h : Moves cfg t t') : Phase cfg db t' := by
  cases hp with
  | early pc fresh background unsettled =>
    rw [← h.id] at fresh
    rcases h.early pc with ⟨hpc, hbackground, hunsettled⟩ | ⟨hpc, hunsettled⟩
    · rcases hpc with hearly | hbare
      · exact .early hearly fresh (hbackground.trans background) (hunsettled.trans unsettled)
      · exact Phase.bare_of_fresh hbare fresh (hbackground.trans background)
          (hunsettled.trans unsettled)
    · exact Phase.buffered_of_fresh hpc fresh (hunsettled.trans unsettled)
  | buffered pc usage citations unsettled =>
    rw [← h.id] at usage citations
    refine .buffered (h.buffered pc) usage citations ?_
    intro txn htxn
    rcases h.unsettled txn htxn with hold | hsaving | ⟨buffer, -, htask⟩
    · exact unsettled txn hold
    · exact saving_buffered pc hsaving
    · unfold Turn.backgroundTxn at htask
      split at htask
      · exact nomatch htask
      · obtain rfl := Option.some.inj htask
        rfl
  | bare pc messages citations background unsettled usage =>
    obtain ⟨hpc, hbackground, hpending⟩ := h.bare pc
    rw [← h.id] at messages citations usage
    refine .bare hpc messages citations ?_ ?_ (by omega)
    · intro buffer hbuffer
      rcases hbackground buffer hbuffer with hold | hnil
      · exact background buffer hold
      · exact hnil
    · intro txn htxn
      rcases h.unsettled txn htxn with hold | hsaving | ⟨buffer, hbuffer, htask⟩
      · exact unsettled txn hold
      · exact saving_bare pc hsaving
      · simp [Turn.backgroundTxn, background buffer hbuffer] at htask

/-- Before the first saving, no saving has begun. -/
theorem early_only {pc : Pc} (h : pc.isEarly = true) :
    pc.isBuffered = false ∧ pc.isBare = false := by
  cases pc with
  | yieldStart => exact ⟨rfl, rfl⟩
  | retrieving => exact ⟨rfl, rfl⟩
  | yieldCitations => exact ⟨rfl, rfl⟩
  | streaming f => exact ⟨rfl, rfl⟩
  | yieldDelta f => exact ⟨rfl, rfl⟩
  | _ => exact nomatch h

/-- A step out of an early place that spawns nothing and cuts nothing off. -/
theorem moves_of_early (hpc : t.pc.isEarly = true) (hid : t'.id = t.id)
    (hbackground : t'.background = t.background) (hunsettled : t'.unsettled = t.unsettled)
    (h : t'.pc.isEarly = true ∨ t'.pc.isBare = true ∨ t'.pc.isBuffered = true) :
    Moves cfg t t' where
  id := hid
  early := by
    intro _
    rcases h with hearly | hbare | hbuffered
    · exact Or.inl ⟨Or.inl hearly, hbackground, hunsettled⟩
    · exact Or.inl ⟨Or.inr hbare, hbackground, hunsettled⟩
    · exact Or.inr ⟨hbuffered, hunsettled⟩
  buffered := by
    intro hbuffered
    rw [(early_only hpc).1] at hbuffered
    exact nomatch hbuffered
  bare := by
    intro hbare
    rw [(early_only hpc).2] at hbare
    exact nomatch hbare
  unsettled := by
    intro txn htxn
    rw [hunsettled] at htxn
    exact Or.inl htxn

/-- The generator ends. -/
theorem moves_ended (cfg : Config) (t : Turn) (how : Ending) :
    Moves cfg t { t with pc := .ended how } where
  id := rfl
  early := fun _ => Or.inr ⟨rfl, rfl⟩
  buffered := fun _ => rfl
  bare := fun _ => ⟨rfl, fun _ h => Or.inl h, Nat.add_le_add_left (Nat.zero_le _) _⟩
  unsettled := fun _ h => Or.inl h

theorem moves_resume (h : t.resume = some t') : Moves cfg t t' := by
  unfold Turn.resume at h
  split at h
  all_goals rename_i hpc
  · obtain rfl := Option.some.inj h
    refine moves_of_early (by rw [hpc]; rfl) rfl rfl rfl (Or.inl ?_)
    by_cases hrag : t.turn.sourceIds.isSome <;> simp [hrag, Pc.isEarly]
  · obtain rfl := Option.some.inj h
    exact moves_of_early (by rw [hpc]; rfl) rfl rfl rfl (Or.inl rfl)
  · obtain rfl := Option.some.inj h
    exact moves_of_early (by rw [hpc]; rfl) rfl rfl rfl (Or.inl rfl)
  · obtain rfl := Option.some.inj h
    exact moves_ended cfg t .returned
  · obtain rfl := Option.some.inj h
    exact moves_ended cfg t .returned
  · exact nomatch h

/-- The partial is saved before the generator ends, if there is one. -/
theorem moves_closing {f : Frame} (hpc : t.pc.inTry = some f) (hbuffer : f.buffer ≠ []) :
    Moves cfg t { t with pc := .closing f } where
  id := rfl
  early := fun _ => Or.inr ⟨rfl, rfl⟩
  buffered := fun _ => rfl
  bare := by
    intro hbare
    cases hpc' : t.pc with
    | saveStreamError f' code message =>
      rw [hpc'] at hpc hbare
      obtain rfl := Option.some.inj hpc
      exact absurd (by simpa [Pc.isBare] using hbare) hbuffer
    | yieldStreamError f' =>
      rw [hpc'] at hpc hbare
      obtain rfl := Option.some.inj hpc
      exact absurd (by simpa [Pc.isBare] using hbare) hbuffer
    | streaming f' =>
      rw [hpc'] at hbare
      exact nomatch hbare
    | yieldDelta f' =>
      rw [hpc'] at hbare
      exact nomatch hbare
    | _ =>
      rw [hpc'] at hpc
      exact nomatch hpc
  unsettled := fun _ h => Or.inl h

theorem moves_close (h : t.close = some t') : Moves cfg t t' := by
  unfold Turn.close at h
  split at h
  · split at h
    · rename_i f hf
      obtain rfl := Option.some.inj h
      by_cases hbuffer : f.buffer = []
      · simp only [hbuffer, if_true]
        exact moves_ended cfg t .generatorExit
      · simp only [hbuffer, if_false]
        exact moves_closing hf hbuffer
    · obtain rfl := Option.some.inj h
      exact moves_ended cfg t .generatorExit
  · exact nomatch h

/-- A cancellation cuts off what is awaited, and what it spawns in the bare phase has no text. -/
theorem moves_cancel (h : t.cancel cfg = some t') : Moves cfg t t' := by
  obtain ⟨-, rfl⟩ := cancel_eq h
  refine ⟨rfl, ?_, fun _ => rfl, ?_, ?_⟩
  · intro hearly
    refine Or.inr ⟨rfl, ?_⟩
    simp [saving_early hearly]
  · intro hbare
    refine ⟨rfl, ?_, ?_⟩
    · intro buffer hbuffer
      rcases List.mem_append.mp hbuffer with hold | hnew
      · exact Or.inl hold
      · obtain ⟨f, hf, rfl⟩ := Option.map_eq_some_iff.mp (Option.mem_toList.mp hnew)
        refine Or.inr ?_
        cases hpc : t.pc with
        | saveStreamError f' code message =>
          rw [hpc] at hf hbare
          obtain rfl := Option.some.inj hf
          simpa [Pc.isBare] using hbare
        | yieldStreamError f' =>
          rw [hpc] at hf hbare
          obtain rfl := Option.some.inj hf
          simpa [Pc.isBare] using hbare
        | streaming f' =>
          rw [hpc] at hbare
          exact nomatch hbare
        | yieldDelta f' =>
          rw [hpc] at hbare
          exact nomatch hbare
        | _ =>
          rw [hpc] at hf
          exact nomatch hf
    · simp [Turn.pending, Turn.saving]
  · intro txn htxn
    rcases List.mem_append.mp htxn with hold | hnew
    · exact Or.inl hold
    · exact Or.inr (Or.inl (Option.mem_toList.mp hnew))

theorem moves_retrieved {r : Retrieval} (h : t.retrieved cfg r = some t') : Moves cfg t t' := by
  unfold Turn.retrieved at h
  split at h
  · rename_i hpc
    have hearly : t.pc.isEarly = true := by rw [hpc]; rfl
    split at h
    · simp only at h
      split at h
      · obtain rfl := Option.some.inj h
        exact moves_of_early hearly rfl rfl rfl (Or.inl rfl)
      · obtain rfl := Option.some.inj h
        exact moves_of_early hearly rfl rfl rfl (Or.inl rfl)
    · obtain rfl := Option.some.inj h
      exact moves_of_early hearly rfl rfl rfl (Or.inr (Or.inl rfl))
    · obtain rfl := Option.some.inj h
      exact moves_of_early hearly rfl rfl rfl (Or.inr (Or.inl rfl))
  · exact nomatch h

/-- A StreamError starts a saving with a message exactly when there is text. -/
theorem moves_provided {step : ProviderStep} {latencyMs : Int}
    (h : t.provided step latencyMs = some t') : Moves cfg t t' := by
  unfold Turn.provided at h
  split at h
  · rename_i f hpc
    have hearly : t.pc.isEarly = true := by rw [hpc]; rfl
    split at h
    · obtain rfl := Option.some.inj h
      exact moves_of_early hearly rfl rfl rfl (Or.inl rfl)
    · obtain rfl := Option.some.inj h
      exact moves_of_early hearly rfl rfl rfl (Or.inl rfl)
    · obtain rfl := Option.some.inj h
      refine moves_of_early hearly rfl rfl rfl (Or.inr ?_)
      by_cases hbuffer : f.buffer = [] <;> simp [Pc.isBare, Pc.isBuffered, hbuffer]
    · obtain rfl := Option.some.inj h
      exact moves_of_early hearly rfl rfl rfl (Or.inr (Or.inr rfl))
    · obtain rfl := Option.some.inj h
      exact moves_of_early hearly rfl rfl rfl (Or.inl rfl)
    · obtain rfl := Option.some.inj h
      exact moves_of_early hearly rfl rfl rfl (Or.inr (Or.inr rfl))
    · obtain rfl := Option.some.inj h
      exact moves_ended cfg t .raised
  · exact nomatch h

/-! ## 5. Steps with a transaction -/

/-- After the awaited transaction, nothing is awaited. -/
theorem afterSave_saving (saved : Bool) (h : t.saving cfg = some txn) :
    (t.afterSave saved).saving cfg = none := by
  unfold Turn.saving at h
  split at h
  all_goals rename_i hpc
  · simp [Turn.afterSave, hpc, Turn.emit, Turn.saving]
  · simp [Turn.afterSave, hpc, Turn.emit, Turn.saving]
  · simp [Turn.afterSave, hpc, Turn.saving]
  · cases saved <;> simp [Turn.afterSave, hpc, Turn.emit, Turn.saving]
  · exact nomatch h

/-- A place after the first saving is left for another one. -/
theorem afterSave_buffered (saved : Bool) (h : t.pc.isBuffered = true) :
    (t.afterSave saved).pc.isBuffered = true := by
  unfold Turn.afterSave
  split
  all_goals rename_i hpc
  · rfl
  · rw [hpc] at h
    exact h
  · rfl
  · split <;> rfl
  · exact h

theorem afterSave_bare (saved : Bool) (h : t.pc.isBare = true) :
    (t.afterSave saved).pc.isBare = true := by
  unfold Turn.afterSave
  split
  all_goals rename_i hpc
  · rfl
  · rw [hpc] at h
    exact h
  · rfl
  · split <;> rfl
  · exact h

/-- The commit of what is awaited, or its conflict with a message that is there. -/
theorem phase_commit (hp : Phase cfg db t) (h : t.step cfg db .commit = some (db', t')) :
    Phase cfg db' t' := by
  obtain ⟨txn, htxn, heq⟩ := Option.map_eq_some_iff.mp h
  have hof : txn.Of t.id := saving_of htxn
  cases hp with
  | early pc _ _ _ =>
    rw [saving_early pc] at htxn
    exact nomatch htxn
  | buffered pc usage citations unsettled =>
    have hsome := saving_buffered pc htxn
    obtain ⟨husage, hcitations⟩ := buffered_attempt hof hsome usage citations
    obtain ⟨hdb, saved, hturn⟩ : db' = db.attempt txn ∧ ∃ saved, t' = t.afterSave saved := by
      split at heq
      · rename_i db₁ hcommit
        obtain ⟨rfl, rfl⟩ := Prod.mk.inj heq
        exact ⟨by simp [Db.attempt, hcommit], true, rfl⟩
      · rename_i hcommit
        obtain ⟨rfl, rfl⟩ := Prod.mk.inj heq
        exact ⟨by simp [Db.attempt, hcommit], false, rfl⟩
    rw [hdb, hturn]
    refine .buffered (afterSave_buffered saved pc) ?_ ?_ ?_
    · rw [afterSave_id]
      exact husage
    · rw [afterSave_id]
      exact hcitations
    · rw [afterSave_unsettled]
      exact unsettled
  | bare pc messages citations background unsettled usage =>
    obtain ⟨db₁, hcommit, hm, hc, hu⟩ := bare_commit db hof (saving_bare pc htxn)
    rw [hcommit] at heq
    obtain ⟨rfl, rfl⟩ := Prod.mk.inj heq
    refine .bare (afterSave_bare true pc) ?_ ?_ ?_ ?_ ?_
    · rw [afterSave_id, hm, messages]
    · rw [afterSave_id, hc, citations]
    · rw [afterSave_background]
      exact background
    · rw [afterSave_unsettled]
      exact unsettled
    · rw [afterSave_id, hu, Turn.pending, afterSave_unsettled, afterSave_saving true htxn]
      simp only [Turn.pending, htxn, Option.toList_some, List.length_singleton] at usage
      simp only [Option.toList_none, List.length_nil]
      omega

/-- What is awaited raises. -/
theorem phase_fail {lost : Bool} (hp : Phase cfg db t)
    (h : t.step cfg db (.fail lost) = some (db', t')) : Phase cfg db' t' := by
  obtain ⟨txn, htxn, heq⟩ := Option.map_eq_some_iff.mp h
  obtain ⟨rfl, rfl⟩ := Prod.mk.inj heq
  refine phase_moves hp ⟨afterSave_id t false, ?_, afterSave_buffered false, ?_, ?_⟩
  · intro hearly
    rw [saving_early hearly] at htxn
    exact nomatch htxn
  · intro hbare
    refine ⟨afterSave_bare false hbare, ?_, ?_⟩
    · intro buffer hbuffer
      rw [afterSave_background] at hbuffer
      exact Or.inl hbuffer
    · have hnone : ({ t.afterSave false with
          unsettled := t.unsettled ++ if lost then [txn] else [] } : Turn).saving cfg = none :=
        afterSave_saving false htxn
      rw [Turn.pending, Turn.pending, hnone, htxn]
      cases lost <;> simp
  · intro txn' htxn'
    rcases List.mem_append.mp htxn' with hold | hnew
    · exact Or.inl hold
    · cases lost with
      | true =>
        obtain rfl := List.mem_singleton.mp hnew
        exact Or.inr (Or.inl htxn)
      | false => exact nomatch hnew

/-- A background task runs. -/
theorem phase_background {k : Nat} (hp : Phase cfg db t)
    (h : t.step cfg db (.background k) = some (db', t')) : Phase cfg db' t' := by
  obtain ⟨buffer, hbuffer, heq⟩ := Option.map_eq_some_iff.mp h
  have hmem : buffer ∈ t.background := List.mem_of_getElem? hbuffer
  cases hp with
  | early _ _ background _ =>
    rw [background] at hmem
    exact nomatch hmem
  | buffered pc usage citations unsettled =>
    split at heq
    · rename_i txn htxn
      obtain ⟨rfl, rfl⟩ := Prod.mk.inj heq
      have hsome : txn.message.isSome = true := by
        unfold Turn.backgroundTxn at htxn
        split at htxn
        · exact nomatch htxn
        · obtain rfl := Option.some.inj htxn
          rfl
      obtain ⟨husage, hcitations⟩ :=
        buffered_attempt (backgroundTxn_of htxn) hsome usage citations
      exact .buffered pc husage hcitations unsettled
    · obtain ⟨rfl, rfl⟩ := Prod.mk.inj heq
      exact .buffered pc usage citations unsettled
  | bare pc messages citations background unsettled usage =>
    have hnone : t.backgroundTxn cfg buffer = none := by
      simp [Turn.backgroundTxn, background buffer hmem]
    rw [hnone] at heq
    obtain ⟨rfl, rfl⟩ := Prod.mk.inj heq
    exact .bare pc messages citations
      (fun b hb => background b (List.mem_of_mem_eraseIdx hb)) unsettled usage

/-- A background task raises. -/
theorem phase_backgroundFail {k : Nat} {lost : Bool} (hp : Phase cfg db t)
    (h : t.step cfg db (.backgroundFail k lost) = some (db', t')) : Phase cfg db' t' := by
  obtain ⟨buffer, hbuffer, heq⟩ := Option.map_eq_some_iff.mp h
  obtain ⟨rfl, rfl⟩ := Prod.mk.inj heq
  have hmem : buffer ∈ t.background := List.mem_of_getElem? hbuffer
  cases hp with
  | early _ _ background _ =>
    rw [background] at hmem
    exact nomatch hmem
  | buffered pc usage citations unsettled =>
    refine .buffered pc usage citations ?_
    intro txn htxn
    rcases List.mem_append.mp htxn with hold | hnew
    · exact unsettled txn hold
    · split at hnew
      · have htask := Option.mem_toList.mp hnew
        unfold Turn.backgroundTxn at htask
        split at htask
        · exact nomatch htask
        · obtain rfl := Option.some.inj htask
          rfl
      · exact nomatch hnew
  | bare pc messages citations background unsettled usage =>
    have hnone : t.backgroundTxn cfg buffer = none := by
      simp [Turn.backgroundTxn, background buffer hmem]
    have hnil : (if lost then (t.backgroundTxn cfg buffer).toList else []) = [] := by
      rw [hnone]
      split <;> rfl
    refine .bare pc messages citations
      (fun b hb => background b (List.mem_of_mem_eraseIdx hb)) ?_ ?_
    · rw [hnil, List.append_nil]
      exact unsettled
    · have hpending : ({ t with
          background := t.background.eraseIdx k
          unsettled := t.unsettled ++ if lost then (t.backgroundTxn cfg buffer).toList else [] } :
          Turn).pending cfg = t.pending cfg := by
        rw [hnil, List.append_nil]
        rfl
      rw [hpending]
      exact usage

/-- The database settles a transaction that was cut off. -/
theorem phase_settle {k : Nat} {commits : Bool} (hown : t.OwnUnsettled) (hp : Phase cfg db t)
    (h : t.step cfg db (.settle k commits) = some (db', t')) : Phase cfg db' t' := by
  obtain ⟨txn, htxn, heq⟩ := Option.map_eq_some_iff.mp h
  obtain ⟨rfl, rfl⟩ := Prod.mk.inj heq
  have hmem : txn ∈ t.unsettled := List.mem_of_getElem? htxn
  have hof : txn.Of t.id := hown txn hmem
  obtain ⟨hk, -⟩ := List.getElem?_eq_some_iff.mp htxn
  cases hp with
  | early _ _ _ unsettled =>
    rw [unsettled] at hmem
    exact nomatch hmem
  | buffered pc usage citations unsettled =>
    have hleft : ∀ txn ∈ t.unsettled.eraseIdx k, txn.message.isSome = true :=
      fun txn' h' => unsettled txn' (List.mem_of_mem_eraseIdx h')
    cases commits with
    | false => exact .buffered pc usage citations hleft
    | true =>
      obtain ⟨husage, hcitations⟩ := buffered_attempt hof (unsettled txn hmem) usage citations
      exact .buffered pc husage hcitations hleft
  | bare pc messages citations background unsettled usage =>
    have hleft : ∀ txn ∈ t.unsettled.eraseIdx k, txn.message = none :=
      fun txn' h' => unsettled txn' (List.mem_of_mem_eraseIdx h')
    have hpending : ({ t with unsettled := t.unsettled.eraseIdx k } : Turn).pending cfg + 1
        = t.pending cfg := by
      have hsaving : ({ t with unsettled := t.unsettled.eraseIdx k } : Turn).saving cfg
          = t.saving cfg := rfl
      rw [Turn.pending, Turn.pending, hsaving, List.length_eraseIdx, if_pos hk]
      omega
    have hid : ({ t with unsettled := t.unsettled.eraseIdx k } : Turn).id = t.id := rfl
    cases commits with
    | false =>
      simp only [Bool.false_eq_true, if_false]
      refine .bare pc messages citations background hleft ?_
      rw [hid]
      omega
    | true =>
      obtain ⟨db₁, hcommit, hm, hc, hu⟩ := bare_commit db hof (unsettled txn hmem)
      have hattempt : db.attempt txn = db₁ := by simp [Db.attempt, hcommit]
      simp only [if_true, hattempt]
      refine .bare pc (hm.trans messages) (hc.trans citations) background hleft ?_
      rw [hid, hu]
      omega

/-! ## 6. Every step -/

/-- A choice that is not about a transaction. -/
def Choice.isMove : Choice → Bool
  | .resume | .close | .cancel | .retrieved _ | .provider _ _ => true
  | .commit | .fail _ | .background _ | .backgroundFail _ _ | .settle _ _ => false

/-- Such a step leaves the database alone. -/
theorem moves_of_step {c : Choice} (hc : c.isMove = true)
    (h : t.step cfg db c = some (db', t')) : db' = db ∧ Moves cfg t t' := by
  have hmoves : ∀ {o : Option Turn}, (o.map fun t => (db, t)) = some (db', t') →
      (∀ t₁, o = some t₁ → Moves cfg t t₁) → db' = db ∧ Moves cfg t t' := by
    intro o ho hall
    obtain ⟨rfl, ht'⟩ := step_moved ho
    exact ⟨rfl, hall t' ht'⟩
  cases c with
  | resume => exact hmoves h fun _ => moves_resume
  | close => exact hmoves h fun _ => moves_close
  | cancel => exact hmoves h fun _ => moves_cancel
  | retrieved r => exact hmoves h fun _ => moves_retrieved
  | provider step latencyMs => exact hmoves h fun _ => moves_provided
  | commit | fail | background | backgroundFail | settle => cases hc

theorem phase_step {c : Choice} (hown : t.OwnUnsettled) (hp : Phase cfg db t)
    (h : t.step cfg db c = some (db', t')) : Phase cfg db' t' := by
  cases c with
  | resume | close | cancel | retrieved | provider =>
    obtain ⟨rfl, hmove⟩ := moves_of_step rfl h
    exact phase_moves hp hmove
  | commit => exact phase_commit hp h
  | fail lost => exact phase_fail hp h
  | background k => exact phase_background hp h
  | backgroundFail k lost => exact phase_backgroundFail hp h
  | settle k commits => exact phase_settle hown hp h

/-- What is cut off is the turn's own, and the turn keeps its id. -/
theorem own_step {c : Choice} (hown : t.OwnUnsettled) (h : t.step cfg db c = some (db', t')) :
    t'.id = t.id ∧ t'.OwnUnsettled := by
  cases c with
  | resume | close | cancel | retrieved | provider =>
    obtain ⟨-, hmove⟩ := moves_of_step rfl h
    refine ⟨hmove.id, fun txn htxn => ?_⟩
    rw [hmove.id]
    rcases hmove.unsettled txn htxn with hold | hsaving | ⟨buffer, -, htask⟩
    · exact hown txn hold
    · exact saving_of hsaving
    · exact backgroundTxn_of htask
  | commit =>
    obtain ⟨txn, -, heq⟩ := Option.map_eq_some_iff.mp h
    have hafter : ∀ saved, (t.afterSave saved).id = t.id ∧ (t.afterSave saved).OwnUnsettled := by
      intro saved
      refine ⟨afterSave_id t saved, fun txn htxn => ?_⟩
      rw [afterSave_id]
      exact hown txn (afterSave_unsettled t saved ▸ htxn)
    split at heq <;> obtain ⟨-, rfl⟩ := Prod.mk.inj heq <;> exact hafter _
  | fail lost =>
    obtain ⟨txn, htxn, heq⟩ := Option.map_eq_some_iff.mp h
    obtain ⟨-, rfl⟩ := Prod.mk.inj heq
    have hid : ({ t.afterSave false with
        unsettled := t.unsettled ++ if lost then [txn] else [] } : Turn).id = t.id :=
      afterSave_id t false
    refine ⟨hid, fun txn' htxn' => ?_⟩
    rw [hid]
    rcases List.mem_append.mp htxn' with hold | hnew
    · exact hown txn' hold
    · cases lost with
      | true =>
        obtain rfl := List.mem_singleton.mp hnew
        exact saving_of htxn
      | false => exact nomatch hnew
  | background k =>
    obtain ⟨buffer, -, heq⟩ := Option.map_eq_some_iff.mp h
    split at heq <;> obtain ⟨-, rfl⟩ := Prod.mk.inj heq <;> exact ⟨rfl, hown⟩
  | backgroundFail k lost =>
    obtain ⟨buffer, -, heq⟩ := Option.map_eq_some_iff.mp h
    obtain ⟨-, rfl⟩ := Prod.mk.inj heq
    refine ⟨rfl, fun txn htxn => ?_⟩
    rcases List.mem_append.mp htxn with hold | hnew
    · exact hown txn hold
    · split at hnew
      · exact backgroundTxn_of (Option.mem_toList.mp hnew)
      · exact nomatch hnew
  | settle k commits =>
    obtain ⟨txn, -, heq⟩ := Option.map_eq_some_iff.mp h
    obtain ⟨-, rfl⟩ := Prod.mk.inj heq
    exact ⟨rfl, fun txn htxn => hown txn (List.mem_of_mem_eraseIdx htxn)⟩

/-! ## 7. The result -/

/-- What holds of every turn of the system. -/
structure Inv (cfg : Config) (ids : List Id) (s : Sys) : Prop where
  ids : s.parties.map Turn.id = ids
  own : ∀ (i : Nat) (t : Turn), s.parties[i]? = some t → t.OwnUnsettled
  phase : ∀ (i : Nat) (t : Turn), s.parties[i]? = some t → Phase cfg s.shared t

/-- **The others do not see a step**: it leaves the rows of their ids alone. -/
theorem step_sameRows {ids : List Id} (hids : ids.Nodup) {s s' : Sys} {l : Nat × Choice} {j : Nat}
    {u : Turn} (hi : Inv cfg ids s) (hu : s.parties[j]? = some u) (hne : j ≠ l.1)
    (h : s.step cfg l = some s') : SameRows s.shared s'.shared u.id := by
  obtain ⟨t, db, t', ht, hstep, rfl⟩ := Par.act_eq_some.mp h
  refine step_other (hi.own l.1 t ht) ?_ hstep
  intro heq
  have hj : ids[j]? = some u.id := by rw [← hi.ids, List.getElem?_map, hu]; rfl
  have hl : ids[l.1]? = some t.id := by rw [← hi.ids, List.getElem?_map, ht]; rfl
  exact hne ((List.getElem?_inj (List.getElem?_eq_some_iff.mp hj).1 hids).mp
    (by rw [hj, hl, heq]))

/-- **A step of one turn keeps the invariant of all.** -/
theorem inv_step {ids : List Id} (hids : ids.Nodup) {s s' : Sys} {l : Nat × Choice}
    (hi : Inv cfg ids s) (h : s.step cfg l = some s') : Inv cfg ids s' := by
  have hothers := fun {j u} hu hne => step_sameRows (j := j) (u := u) hids hi hu hne h
  obtain ⟨t, db, t', ht, hstep, rfl⟩ := Par.act_eq_some.mp h
  obtain ⟨hid, hown⟩ := own_step (hi.own l.1 t ht) hstep
  refine ⟨?_, ?_, ?_⟩
  · obtain ⟨hlt, heq⟩ := List.getElem?_eq_some_iff.mp ht
    rw [List.map_set, hid, ← heq, ← List.getElem_map Turn.id, List.set_getElem_self, hi.ids]
    simpa using hlt
  · exact forall_set (P := Turn.OwnUnsettled) hi.own hown
  · intro j u hu
    rcases set_cases hu with ⟨-, rfl⟩ | ⟨hne, hold⟩
    · exact phase_step (hi.own l.1 t ht) (hi.phase l.1 t ht) hstep
    · exact (hi.phase j u hold).congr (hothers hold hne)

/-- The turns that have just passed `_prepare_turn`. -/
def startAll (db : Db) (turns : List (AuthContext × Id × Prepared)) : Sys :=
  ⟨db, turns.map fun (ctx, conversationId, prepared) => Turn.start ctx conversationId prepared⟩

/-- A turn of the start is one that has just passed `_prepare_turn`. -/
theorem startAll_parties {db : Db} {turns : List (AuthContext × Id × Prepared)} {i : Nat} {t : Turn}
    (h : (startAll db turns).parties[i]? = some t) :
    ∃ p, turns[i]? = some p ∧ t = Turn.start p.1 p.2.1 p.2.2 := by
  rw [startAll, List.getElem?_map] at h
  obtain ⟨p, hp, rfl⟩ := Option.map_eq_some_iff.mp h
  exact ⟨p, hp, rfl⟩

theorem startAll_inv {db : Db} {turns : List (AuthContext × Id × Prepared)}
    (hfresh : ∀ p ∈ turns, Fresh db p.2.2.assistantMessageId) :
    Inv cfg (turns.map fun p => p.2.2.assistantMessageId) (startAll db turns) := by
  refine ⟨?_, ?_, ?_⟩
  · simp only [startAll, List.map_map]
    rfl
  · intro i t ht
    obtain ⟨p, -, rfl⟩ := startAll_parties ht
    exact fun txn htxn => nomatch htxn
  · intro i t ht
    obtain ⟨p, hp, rfl⟩ := startAll_parties ht
    exact .early rfl (hfresh p (List.mem_of_getElem? hp)) rfl rfl

/-- **A turn is saved once.**  For any number of turns with ids of their own that the database
does not know, in any interleaving of their steps, with cancellations, closed generators, failed
and cut off transactions and background tasks at any place: in every reachable state each turn's
id is on at most one message and at most one usage row, and its citations are that message's. -/
theorem saved_once (cfg : Config) (db : Db) (turns : List (AuthContext × Id × Prepared))
    (hids : (turns.map fun p => p.2.2.assistantMessageId).Nodup)
    (hfresh : ∀ p ∈ turns, Fresh db p.2.2.assistantMessageId) (ls : List (Nat × Choice)) (s : Sys)
    (h : run (Sys.step cfg) (startAll db turns) ls = some s) :
    ∀ p ∈ turns, SavedOnce s.shared p.2.2.assistantMessageId := by
  have hinv : Inv cfg (turns.map fun p => p.2.2.assistantMessageId) s :=
    run_invariant_of_step (fun _ _ _ hi hstep => inv_step hids hi hstep) (startAll_inv hfresh) h
  intro p hp
  have hmem : p.2.2.assistantMessageId ∈ s.parties.map Turn.id := by
    rw [hinv.ids]
    exact List.mem_map.mpr ⟨p, hp, rfl⟩
  obtain ⟨t, ht, hid⟩ := List.mem_map.mp hmem
  obtain ⟨i, hi⟩ := List.mem_iff_getElem?.mp ht
  rw [← hid]
  exact (hinv.phase i t hi).savedOnce

/-- The saving of a partial is cut off by a cancellation; the database commits it, and the saving
in the background finds it. -/
def cutOffRun : List (Nat × Choice) :=
  (deltaThenError ++ [Choice.cancel, .settle 0 true, .background 0]).map (Prod.mk 0)

theorem saved_once_cutOff :
    ∃ s, run (Sys.step sampleConfig) (startAll .empty [(sampleContext, 0, samplePrepared)])
        cutOffRun = some s ∧
      (s.shared.messagesOf 1).length = 1 ∧ SavedOnce s.shared 1 := by
  have hrun : (run (Sys.step sampleConfig) (startAll .empty [(sampleContext, 0, samplePrepared)])
      cutOffRun).map (fun s => (s.shared.messagesOf 1).length) = some 1 := by decide
  obtain ⟨s, hs, hone⟩ := Option.map_eq_some_iff.mp hrun
  refine ⟨s, hs, hone, ?_⟩
  exact saved_once sampleConfig .empty [(sampleContext, 0, samplePrepared)] (by decide)
    (by
      intro p hp
      obtain rfl := List.mem_singleton.mp hp
      exact ⟨rfl, rfl, rfl⟩)
    cutOffRun s hs (sampleContext, 0, samplePrepared) (List.mem_singleton_self _)

end AtlasKnowledge.Chat
