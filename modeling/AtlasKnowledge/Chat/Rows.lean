/-
# The rows of one turn

Everything a turn writes bears its `assistant_message_id`: the message's primary key, the
reference of the citations and the reference of the usage row.  So a turn changes its own share
of the tables only (`commit_other`), and that share grows by whole transactions (`commit_own`).
-/
import AtlasKnowledge.Chat.Turn

namespace AtlasKnowledge.Chat

/-! ## 1. The share of one id -/

/-- The messages with this id. -/
def Db.messagesOf (db : Db) (id : Id) : List MessageRow :=
  db.messages.rows.filter fun m => m.id = id

/-- The citations of the message with this id. -/
def Db.citationsOf (db : Db) (id : Id) : List CitationRow :=
  db.citations.filter fun c => c.messageId = id

/-- The usage rows of the message with this id. -/
def Db.usageOf (db : Db) (id : Id) : List UsageRow := db.usage.filter fun u => u.messageId = id

/-- Two databases have the same rows of the id. -/
structure SameRows (db db' : Db) (id : Id) : Prop where
  messages : db'.messagesOf id = db.messagesOf id
  citations : db'.citationsOf id = db.citationsOf id
  usage : db'.usageOf id = db.usageOf id

theorem SameRows.refl (db : Db) (id : Id) : SameRows db db id := ⟨rfl, rfl, rfl⟩

/-- The database has no row of the id: it was drawn by `new_id`. -/
structure Fresh (db : Db) (id : Id) : Prop where
  messages : db.messagesOf id = []
  citations : db.citationsOf id = []
  usage : db.usageOf id = []

variable {db db' : Db} {txn : Txn} {id : Id}

theorem mem_messagesOf {m : MessageRow} :
    m ∈ db.messagesOf id ↔ m ∈ db.messages.rows ∧ m.id = id := by
  simp [Db.messagesOf, List.mem_filter]

/-- The primary key: at most one message has the id. -/
theorem messagesOf_length_le (db : Db) (id : Id) : (db.messagesOf id).length ≤ 1 := by
  have hpk : (db.messagesOf id).Nodup := (List.Nodup.of_map _ db.messages.pk).filter _
  have hall : ∀ m ∈ db.messagesOf id, ∀ m' ∈ db.messagesOf id, m = m' := by
    intro m hm m' hm'
    obtain ⟨hmem, hid⟩ := mem_messagesOf.mp hm
    obtain ⟨hmem', hid'⟩ := mem_messagesOf.mp hm'
    exact eq_of_message_id hmem hmem' (hid.trans hid'.symm)
  match h : db.messagesOf id with
  | [] => exact Nat.zero_le 1
  | [_] => exact Nat.le_refl 1
  | m :: m' :: ms =>
    rw [h] at hpk hall
    have heq : m = m' := hall m (by simp) m' (by simp)
    exact absurd (by simp [heq]) (List.nodup_cons.mp hpk).1

/-! ## 2. Transactions of one id -/

/-- Everything the transaction inserts bears the id. -/
structure Txn.Of (txn : Txn) (id : Id) : Prop where
  message : ∀ row ∈ txn.message, row.id = id
  citations : ∀ c ∈ txn.citations, c.messageId = id
  usage : txn.usage.messageId = id

/-- A commit leaves the rows of another id alone. -/
theorem commit_other {other : Id} (hof : txn.Of id) (hne : other ≠ id)
    (h : db.commit? txn = some db') : SameRows db db' other := by
  obtain ⟨hmessages, husage, hcitations⟩ := commit_rows h
  refine ⟨?_, ?_, ?_⟩
  · have hnone : txn.message.toList.filter (fun m => m.id = other) = [] := by
      rw [List.filter_eq_nil_iff]
      intro m hm
      have hid : m.id = id := hof.message m (Option.mem_toList.mp hm)
      simp [hid, Ne.symm hne]
    rw [Db.messagesOf, hmessages, List.filter_append, hnone, List.append_nil]
    rfl
  · have hnone : (if txn.message.isSome then txn.citations else []).filter
        (fun c => c.messageId = other) = [] := by
      rw [List.filter_eq_nil_iff]
      intro c hc
      have hmem : c ∈ txn.citations := by
        split at hc
        · exact hc
        · exact nomatch hc
      simp [hof.citations c hmem, Ne.symm hne]
    rw [Db.citationsOf, hcitations, List.filter_append, hnone, List.append_nil]
    rfl
  · rw [Db.usageOf, husage, List.filter_append]
    simp [Db.usageOf, hof.usage, Ne.symm hne]

/-- A commit adds the whole transaction to the rows of its id. -/
theorem commit_own (hof : txn.Of id) (h : db.commit? txn = some db') :
    db'.messagesOf id = db.messagesOf id ++ txn.message.toList ∧
      db'.citationsOf id = db.citationsOf id ++
        (if txn.message.isSome then txn.citations else []) ∧
      db'.usageOf id = db.usageOf id ++ [txn.usage] := by
  obtain ⟨hmessages, husage, hcitations⟩ := commit_rows h
  refine ⟨?_, ?_, ?_⟩
  · have hall : txn.message.toList.filter (fun m => m.id = id) = txn.message.toList := by
      rw [List.filter_eq_self]
      intro m hm
      simp [hof.message m (Option.mem_toList.mp hm)]
    rw [Db.messagesOf, hmessages, List.filter_append, hall]
    rfl
  · have hall : (if txn.message.isSome then txn.citations else []).filter
        (fun c => c.messageId = id) = if txn.message.isSome then txn.citations else [] := by
      rw [List.filter_eq_self]
      intro c hc
      have hmem : c ∈ txn.citations := by
        split at hc
        · exact hc
        · exact nomatch hc
      simp [hof.citations c hmem]
    rw [Db.citationsOf, hcitations, List.filter_append, hall]
    rfl
  · rw [Db.usageOf, husage, List.filter_append]
    simp [Db.usageOf, hof.usage]

/-- What a transaction does to the rows of its id: it adds itself, or it finds a message of the
id and leaves everything alone. -/
theorem commit_cases (db : Db) {txn : Txn} {id : Id} (hof : txn.Of id) :
    (∃ db', db.commit? txn = some db' ∧
      db'.messagesOf id = db.messagesOf id ++ txn.message.toList ∧
      db'.citationsOf id = db.citationsOf id ++
        (if txn.message.isSome then txn.citations else []) ∧
      db'.usageOf id = db.usageOf id ++ [txn.usage]) ∨
    (db.commit? txn = none ∧ txn.message.isSome = true ∧ db.messagesOf id ≠ []) := by
  cases hcommit : db.commit? txn with
  | some db' => exact Or.inl ⟨db', rfl, commit_own hof hcommit⟩
  | none =>
    obtain ⟨row, hrow, r, hr, hid⟩ := commit_eq_none hcommit
    refine Or.inr ⟨rfl, Option.isSome_iff_exists.mpr ⟨row, hrow⟩, fun hnil => ?_⟩
    have hmem : r ∈ db.messagesOf id := mem_messagesOf.mpr ⟨hr, hid.trans (hof.message row hrow)⟩
    rw [hnil] at hmem
    exact nomatch hmem

/-- A transaction commits while there is no message of its id. -/
theorem commit_of_none (hof : txn.Of id) (hnone : db.messagesOf id = []) :
    ∃ db', db.commit? txn = some db' := by
  rcases commit_cases db hof with ⟨db', hcommit, -⟩ | ⟨-, -, hsome⟩
  · exact ⟨db', hcommit⟩
  · exact absurd hnone hsome

/-! ## 3. The turn's own transactions -/

variable {cfg : Config} {t t' : Turn}

theorem citationRows_of (turn : TurnContext) :
    ∀ c ∈ turn.citationRows, c.messageId = turn.assistantMessageId := by
  intro c hc
  obtain ⟨⟨chunk, rank⟩, -, rfl⟩ := List.mem_map.mp hc
  rfl

theorem successTxn_of (f : Frame) (latencyMs : Int) : (t.successTxn cfg f latencyMs).Of t.id where
  message := by
    rintro row ⟨⟩
    rfl
  citations := citationRows_of t.turn
  usage := rfl

theorem errorTxn_of (buffer : List Text) (code : String) :
    (t.errorTxn cfg buffer code).Of t.id where
  message := by
    intro row hrow
    simp only [Turn.errorTxn] at hrow
    split at hrow
    · exact nomatch hrow
    · obtain rfl := Option.some.inj hrow
      rfl
  citations := by
    intro c hc
    simp only [Turn.errorTxn] at hc
    split at hc
    · exact nomatch hc
    · exact citationRows_of t.turn c hc
  usage := rfl

theorem cancelledTxn_of (buffer : List Text) : (t.cancelledTxn cfg buffer).Of t.id where
  message := by
    rintro row ⟨⟩
    rfl
  citations := citationRows_of t.turn
  usage := rfl

theorem saving_of (h : t.saving cfg = some txn) : txn.Of t.id := by
  unfold Turn.saving at h
  split at h
  · obtain rfl := Option.some.inj h
    exact errorTxn_of _ _
  · obtain rfl := Option.some.inj h
    exact errorTxn_of _ _
  · obtain rfl := Option.some.inj h
    exact cancelledTxn_of _
  · obtain rfl := Option.some.inj h
    exact successTxn_of _ _
  · exact nomatch h

theorem backgroundTxn_of {buffer : List Text} (h : t.backgroundTxn cfg buffer = some txn) :
    txn.Of t.id := by
  unfold Turn.backgroundTxn at h
  split at h
  · exact nomatch h
  · obtain rfl := Option.some.inj h
    exact cancelledTxn_of _

/-! ## 4. What a step does to the tables -/

theorem afterSave_id (t : Turn) (saved : Bool) : (t.afterSave saved).id = t.id := by
  unfold Turn.afterSave
  split
  · rfl
  · rfl
  · rfl
  · split <;> rfl
  · rfl

theorem afterSave_unsettled (t : Turn) (saved : Bool) :
    (t.afterSave saved).unsettled = t.unsettled := by
  unfold Turn.afterSave
  split
  · rfl
  · rfl
  · rfl
  · split <;> rfl
  · rfl

theorem afterSave_background (t : Turn) (saved : Bool) :
    (t.afterSave saved).background = t.background := by
  unfold Turn.afterSave
  split
  · rfl
  · rfl
  · rfl
  · split <;> rfl
  · rfl

/-- Every transaction that was cut off is the turn's own. -/
def Turn.OwnUnsettled (t : Turn) : Prop := ∀ txn ∈ t.unsettled, txn.Of t.id

/-- A step with no transaction leaves the database alone. -/
theorem step_moved {o : Option Turn} (h : (o.map fun t => (db, t)) = some (db', t')) :
    db' = db ∧ o = some t' := by
  obtain ⟨t₁, ht₁, heq⟩ := Option.map_eq_some_iff.mp h
  obtain ⟨rfl, rfl⟩ := Prod.mk.inj heq
  exact ⟨rfl, ht₁⟩

/-- **A step commits at most one transaction, and that is the turn's own.** -/
theorem step_db {c : Choice} (hown : t.OwnUnsettled) (h : t.step cfg db c = some (db', t')) :
    db' = db ∨ ∃ txn : Txn, txn.Of t.id ∧ db.commit? txn = some db' := by
  have hattempt : ∀ txn : Txn, txn.Of t.id → db.attempt txn = db ∨
      ∃ txn' : Txn, txn'.Of t.id ∧ db.commit? txn' = some (db.attempt txn) := by
    intro txn hof
    unfold Db.attempt
    cases hcommit : db.commit? txn with
    | none => exact Or.inl rfl
    | some db₁ => exact Or.inr ⟨txn, hof, by rw [hcommit]; rfl⟩
  cases c with
  | resume => exact Or.inl (step_moved h).1
  | close => exact Or.inl (step_moved h).1
  | cancel => exact Or.inl (step_moved h).1
  | retrieved r => exact Or.inl (step_moved h).1
  | provider step latencyMs => exact Or.inl (step_moved h).1
  | commit =>
    obtain ⟨txn, htxn, heq⟩ := Option.map_eq_some_iff.mp h
    split at heq
    · rename_i db₁ hcommit
      obtain ⟨rfl, -⟩ := Prod.mk.inj heq
      exact Or.inr ⟨txn, saving_of htxn, hcommit⟩
    · exact Or.inl (Prod.mk.inj heq).1.symm
  | fail lost =>
    obtain ⟨txn, -, heq⟩ := Option.map_eq_some_iff.mp h
    exact Or.inl (Prod.mk.inj heq).1.symm
  | background k =>
    obtain ⟨buffer, -, heq⟩ := Option.map_eq_some_iff.mp h
    split at heq
    · rename_i txn htxn
      obtain ⟨rfl, -⟩ := Prod.mk.inj heq
      exact hattempt txn (backgroundTxn_of htxn)
    · exact Or.inl (Prod.mk.inj heq).1.symm
  | backgroundFail k lost =>
    obtain ⟨buffer, -, heq⟩ := Option.map_eq_some_iff.mp h
    exact Or.inl (Prod.mk.inj heq).1.symm
  | settle k commits =>
    obtain ⟨txn, htxn, heq⟩ := Option.map_eq_some_iff.mp h
    obtain ⟨rfl, -⟩ := Prod.mk.inj heq
    split
    · exact hattempt txn (hown txn (List.mem_of_getElem? htxn))
    · exact Or.inl rfl

/-- A step leaves the rows of other turns alone. -/
theorem step_other {c : Choice} {other : Id} (hown : t.OwnUnsettled) (hne : other ≠ t.id)
    (h : t.step cfg db c = some (db', t')) : SameRows db db' other := by
  rcases step_db hown h with rfl | ⟨txn, hof, hcommit⟩
  · exact SameRows.refl _ other
  · exact commit_other hof hne hcommit

/-! ## 5. What a step keeps of the turn -/

/-- Resuming moves the generator on. -/
theorem resume_eq (h : t.resume = some t') : ∃ pc, t' = { t with pc := pc } := by
  unfold Turn.resume at h
  split at h
  · exact ⟨_, (Option.some.inj h).symm⟩
  · exact ⟨_, (Option.some.inj h).symm⟩
  · exact ⟨_, (Option.some.inj h).symm⟩
  · exact ⟨_, (Option.some.inj h).symm⟩
  · exact ⟨_, (Option.some.inj h).symm⟩
  · exact nomatch h

/-- So does closing it. -/
theorem close_eq (h : t.close = some t') : ∃ pc, t' = { t with pc := pc } := by
  unfold Turn.close at h
  split at h
  · split at h
    · exact ⟨_, (Option.some.inj h).symm⟩
    · exact ⟨_, (Option.some.inj h).symm⟩
  · exact nomatch h

/-- A cancellation ends a turn that has not ended, and leaves its saving to the background. -/
theorem cancel_eq (h : t.cancel cfg = some t') :
    t.pc.isEnded = false ∧ t' =
      { t with
        pc := .ended .cancelled
        background := t.background ++ (t.pc.inTry.map Frame.buffer).toList
        unsettled := t.unsettled ++ (t.saving cfg).toList } := by
  unfold Turn.cancel at h
  split at h
  · exact nomatch h
  · rename_i hended
    exact ⟨Bool.eq_false_iff.mpr hended, (Option.some.inj h).symm⟩

/-- A retrieval writes the context of the turn, and yields at most the citations. -/
theorem retrieved_eq {r : Retrieval} (h : t.retrieved cfg r = some t') :
    ∃ systemPrompt citations events pc, t' =
      { t with
        turn := { t.turn with systemPrompt := systemPrompt, citations := citations }
        emitted := t.emitted ++ events
        pc := pc } := by
  unfold Turn.retrieved at h
  split at h
  · split at h
    · simp only at h
      split at h
      · exact ⟨_, _, [], _, by rw [← Option.some.inj h, List.append_nil]⟩
      · exact ⟨_, _, [_], _, (Option.some.inj h).symm⟩
    · exact ⟨_, _, [], _, by rw [← Option.some.inj h, List.append_nil]⟩
    · exact ⟨_, _, [], _, by rw [← Option.some.inj h, List.append_nil]⟩
  · exact nomatch h

/-- The provider's answer yields at most a delta. -/
theorem provided_eq {step : ProviderStep} {latencyMs : Int}
    (h : t.provided step latencyMs = some t') :
    ∃ pc, t' = { t with pc := pc } ∨ ∃ text, t' = t.emit (.delta text) pc := by
  unfold Turn.provided at h
  split at h
  · split at h
    · exact ⟨_, .inr ⟨_, (Option.some.inj h).symm⟩⟩
    · exact ⟨_, .inl (Option.some.inj h).symm⟩
    · exact ⟨_, .inl (Option.some.inj h).symm⟩
    · exact ⟨_, .inl (Option.some.inj h).symm⟩
    · exact ⟨_, .inl (Option.some.inj h).symm⟩
    · exact ⟨_, .inl (Option.some.inj h).symm⟩
    · exact ⟨_, .inl (Option.some.inj h).symm⟩
  · exact nomatch h

/-- A turn keeps its id and its conversation. -/
theorem step_same {c : Choice} (h : t.step cfg db c = some (db', t')) :
    t'.id = t.id ∧ t'.conversationId = t.conversationId := by
  have hafter : ∀ saved, (t.afterSave saved).id = t.id ∧
      (t.afterSave saved).conversationId = t.conversationId := by
    intro saved
    unfold Turn.afterSave
    split
    · exact ⟨rfl, rfl⟩
    · exact ⟨rfl, rfl⟩
    · exact ⟨rfl, rfl⟩
    · split <;> exact ⟨rfl, rfl⟩
    · exact ⟨rfl, rfl⟩
  cases c with
  | resume =>
    obtain ⟨pc, rfl⟩ := resume_eq (step_moved h).2
    exact ⟨rfl, rfl⟩
  | close =>
    obtain ⟨pc, rfl⟩ := close_eq (step_moved h).2
    exact ⟨rfl, rfl⟩
  | cancel =>
    obtain ⟨-, rfl⟩ := cancel_eq (step_moved h).2
    exact ⟨rfl, rfl⟩
  | retrieved r =>
    obtain ⟨systemPrompt, citations, events, pc, rfl⟩ := retrieved_eq (step_moved h).2
    exact ⟨rfl, rfl⟩
  | provider step latencyMs =>
    obtain ⟨pc, rfl | ⟨text, rfl⟩⟩ := provided_eq (step_moved h).2 <;> exact ⟨rfl, rfl⟩
  | commit =>
    obtain ⟨txn, -, heq⟩ := Option.map_eq_some_iff.mp h
    split at heq <;> obtain ⟨-, rfl⟩ := Prod.mk.inj heq <;> exact hafter _
  | fail lost =>
    obtain ⟨txn, -, heq⟩ := Option.map_eq_some_iff.mp h
    obtain ⟨-, rfl⟩ := Prod.mk.inj heq
    exact hafter false
  | background k =>
    obtain ⟨buffer, -, heq⟩ := Option.map_eq_some_iff.mp h
    split at heq <;> obtain ⟨-, rfl⟩ := Prod.mk.inj heq <;> exact ⟨rfl, rfl⟩
  | backgroundFail k lost =>
    obtain ⟨buffer, -, heq⟩ := Option.map_eq_some_iff.mp h
    obtain ⟨-, rfl⟩ := Prod.mk.inj heq
    exact ⟨rfl, rfl⟩
  | settle k commits =>
    obtain ⟨txn, -, heq⟩ := Option.map_eq_some_iff.mp h
    obtain ⟨-, rfl⟩ := Prod.mk.inj heq
    exact ⟨rfl, rfl⟩

end AtlasKnowledge.Chat
