/-
# A message that is sent again

A request that the network repeats carries the same `client_message_id`, and the unique index
`ux_messages_client_id` is what `_prepare_turn` relies on.  Here the turns of `Services.Turns` run
in any interleaving while conversations are deleted and requests are cut off.  A delete waits for
the transactions that have inserted a message of the conversation.

* `resends`: of the turns with one `client_message_id` in a conversation one goes on at most, and a
  turn is told that the message is a duplicate only if it is, or if the conversation has been
  deleted under it.
-/
import AtlasKnowledge.Lib.Assertions
import AtlasKnowledge.Services.History

namespace AtlasKnowledge.Services.Resends

open Interleave Transition

/-! ## 1. Turns, cuts and deletes -/

inductive Label where
  | act (i : Nat) (d : Draw)
  | cut (i : Nat)
  | deleteConversation (id : Uuid)
  deriving DecidableEq

/-- The request is cut off before the commit, and the transaction rolled back.  The network may send
the request once more. -/
def cut (w : Store) : Party → Unit → Option (Store × Party)
  | .turn t (.checking _ _ _), () => some (w, .turn t .waiting)
  | .turn t (.inserted _ row), () => some (w.rollback row, .turn t .waiting)
  | .turn t (.listed _ row _), () => some (w.rollback row, .turn t .waiting)
  | _, () => none

def step (env : Env) (s : Turns) : Label → Option Turns
  | .act i d => s.step env (i, d)
  | .cut i => s.act cut i ()
  | .deleteConversation id =>
    if ∃ m ∈ s.shared.pending, m.conversationId = id then none
    else some { s with shared := { s.shared with db := s.shared.db.deleteConversation id } }

/-- The ids that are drawn for messages are new. -/
def Fresh (s : Turns) : Label → Prop
  | .act _ (.id id) => ∀ m ∈ s.shared.db.messages.rows, m.id ≠ id
  | _ => True

instance (s : Turns) : DecidablePred (Fresh s)
  | .act _ (.id id) => inferInstanceAs (Decidable (∀ m ∈ s.shared.db.messages.rows, m.id ≠ id))
  | .act _ (.now _) => isTrue trivial
  | .act _ .go => isTrue trivial
  | .cut _ => isTrue trivial
  | .deleteConversation _ => isTrue trivial

/-! ## 2. What is known of a turn -/

variable {env : Env} {db db' db'' : Db} {w w' : Store} {t : Turn} {row : MessageRow} {id : Uuid}

/-- The conversation is not there any more. -/
def Gone (db : Db) (conversationId : Uuid) : Prop :=
  ∀ c ∈ db.conversations.rows, c.id ≠ conversationId

/-- Messages stay as long as their conversation does, and a conversation does not come back. -/
structure Keeps (db db' : Db) : Prop where
  messages : ∀ m ∈ db.messages.rows, m ∈ db'.messages.rows ∨ Gone db' m.conversationId
  gone : ∀ id, Gone db id → Gone db' id

theorem Keeps.refl (db : Db) : Keeps db db := ⟨fun _ h => .inl h, fun _ h => h⟩

theorem keeps_insert (h : db.insertMessage? row = some db') : Keeps db db' := by
  obtain ⟨hinsert, hconversations, -⟩ := insertMessage_tables h
  refine ⟨fun m hm => .inl ((Table.mem_insert hinsert).mpr (.inr hm)), fun id hgone => ?_⟩
  unfold Gone
  rw [hconversations]
  exact hgone

theorem keeps_delete (db : Db) (id : Uuid) : Keeps db (db.deleteConversation id) where
  messages := by
    intro m hm
    by_cases hid : m.conversationId = id
    · refine .inr fun c hc heq => ?_
      have hkept := (List.mem_filter.mp hc).2
      simp [heq, hid] at hkept
    · exact .inl (List.mem_filter.mpr ⟨hm, by simpa using hid⟩)
  gone := fun _ hgone c hc => hgone c (List.mem_filter.mp hc).1

/-- The message with the turn's `client_message_id` is there. -/
def Sent (db : Db) (t : Turn) : Prop :=
  t.clientMessageId.isSome ∧ ∃ m ∈ db.messages.rows, m.conversationId = t.conversationId ∧
    m.clientMessageId = t.clientMessageId

/-- What is known of a turn: it inserts its own `client_message_id`, and its answer is true. -/
def SettledAt (db : Db) (t : Turn) : TurnPc → Prop
  | .inserted _ row => row.clientMessageId = t.clientMessageId
  | .listed _ row _ => row.clientMessageId = t.clientMessageId
  | .prepared row _ _ => row.clientMessageId = t.clientMessageId ∧
      (row ∈ db.messages.rows ∨ Gone db t.conversationId)
  | .raised e => e = .app AppError.duplicateMessage → Sent db t ∨ Gone db t.conversationId
  | _ => True

def Settled (db : Db) : Party → Prop
  | .turn t pc => SettledAt db t pc
  | .saving _ _ => True

theorem Sent.mono (h : Sent db t) (hkeeps : Keeps db db') :
    Sent db' t ∨ Gone db' t.conversationId := by
  obtain ⟨hsome, m, hm, hconv, hclient⟩ := h
  rcases hkeeps.messages m hm with hm' | hgone
  · exact .inl ⟨hsome, m, hm', hconv, hclient⟩
  · exact .inr (hconv ▸ hgone)

/-- What is known of the others survives. -/
theorem Settled.mono {p : Party} (hp : p.Known env) (h : Settled db p) (hkeeps : Keeps db db') :
    Settled db' p := by
  cases p with
  | saving => trivial
  | turn t pc =>
    cases pc with
    | waiting => trivial
    | checking => trivial
    | inserted => exact h
    | listed => exact h
    | prepared row rows context =>
      obtain ⟨hclient, hrow | hgone⟩ := h
      · have hown : OwnRow t row := hp.1
        exact ⟨hclient, hown.conversation ▸ hkeeps.messages row hrow⟩
      · exact ⟨hclient, .inr (hkeeps.gone _ hgone)⟩
    | raised e =>
      intro he
      rcases h he with hsent | hgone
      · exact hsent.mono hkeeps
      · exact .inr (hkeeps.gone _ hgone)

/-- An insert that fails meets a message with the same id, or the same `client_message_id`, or has
no conversation. -/
theorem insert_integrityError (h : w.insert row = .integrityError)
    (hfresh : ∀ m ∈ w.db.messages.rows, m.id ≠ row.id) :
    (row.clientMessageId.isSome ∧ ∃ m ∈ w.db.messages.rows,
      m.conversationId = row.conversationId ∧ m.clientMessageId = row.clientMessageId) ∨
      Gone w.db row.conversationId := by
  have hnone : w.db.insertMessage? row = none := by
    unfold Store.insert at h
    split at h
    · cases h
    · split at h
      · assumption
      · cases h
  by_contra hnot
  obtain ⟨hnew, hthere⟩ := not_or.mp hnot
  have hsome := insertMessage_isSome_iff.mpr ⟨by
    by_contra hno
    exact hthere fun c hc heq => hno ⟨c, hc, heq⟩, by
    rintro m hm (hid | ⟨hclient, hconv, hsame⟩)
    · exact hfresh m hm hid.symm
    · exact hnew ⟨hclient, m, hm, hconv.symm, hsame.symm⟩⟩
  rw [hnone] at hsome
  cases hsome

/-! ## 3. One step -/

theorem keeps_commit (h : w.commit? row = some w') :
    Keeps w.db w'.db ∧ row ∈ w'.db.messages.rows := by
  obtain ⟨db, hinsert, rfl⟩ := Option.map_eq_some_iff.mp h
  exact ⟨keeps_insert hinsert, (Table.mem_insert (insertMessage_tables hinsert).1).mpr (.inl rfl)⟩

/-- **What a statement of `_prepare_turn` settles.** -/
theorem stepTurn_settled {pc pc' : TurnPc} {d : Draw} (hs : SettledAt w.db t pc)
    (hfresh : ∀ id, d = .id id → ∀ m ∈ w.db.messages.rows, m.id ≠ id)
    (h : stepTurn env w t pc d = some (w', pc')) :
    Keeps w.db w'.db ∧ SettledAt w'.db t pc' := by
  cases pc with
  | waiting =>
    cases d with
    | now now =>
      simp only [stepTurn] at h
      split at h
      · obtain ⟨rfl, rfl⟩ := Prod.mk.inj (Option.some.inj h)
        exact ⟨.refl _, fun he => absurd he (by decide)⟩
      · obtain ⟨rfl, rfl⟩ := Prod.mk.inj (Option.some.inj h)
        exact ⟨.refl _, trivial⟩
    | id | go => cases h
  | checking now conv ids =>
    cases ids with
    | nil =>
      cases d with
      | id id =>
        simp only [stepTurn] at h
        split at h
        · cases h
        · rename_i hclash
          obtain ⟨rfl, rfl⟩ := Prod.mk.inj (Option.some.inj h)
          exact ⟨.refl _, fun _ => insert_integrityError hclash (hfresh id rfl)⟩
        · rename_i hinsert
          obtain ⟨rfl, rfl⟩ := Prod.mk.inj (Option.some.inj h)
          obtain ⟨rfl, -⟩ := insert_eq_done hinsert
          exact ⟨.refl _, rfl⟩
      | now | go => cases h
    | cons sourceId rest =>
      cases d with
      | go =>
        simp only [stepTurn] at h
        split at h
        · obtain ⟨rfl, rfl⟩ := Prod.mk.inj (Option.some.inj h)
          exact ⟨.refl _, fun he => absurd he (by decide)⟩
        · obtain ⟨rfl, rfl⟩ := Prod.mk.inj (Option.some.inj h)
          exact ⟨.refl _, trivial⟩
      | now | id => cases h
  | inserted conv row =>
    cases d with
    | go =>
      obtain ⟨view, hview, heq⟩ := Option.map_eq_some_iff.mp h
      obtain ⟨rfl, rfl⟩ := Prod.mk.inj heq
      exact ⟨.refl _, hs⟩
    | now | id => cases h
  | listed conv row rows =>
    cases d with
    | id id =>
      simp only [stepTurn] at h
      split at h
      · obtain ⟨rfl, rfl⟩ := Prod.mk.inj (Option.some.inj h)
        exact ⟨.refl _, fun he => absurd he (by decide)⟩
      · obtain ⟨w₁, hcommit, heq⟩ := Option.map_eq_some_iff.mp h
        obtain ⟨rfl, rfl⟩ := Prod.mk.inj heq
        obtain ⟨hkeeps, hrow⟩ := keeps_commit hcommit
        exact ⟨hkeeps, hs, .inl hrow⟩
    | now | go => cases h
  | prepared | raised => cases d <;> cases h

theorem stepParty_settled {p p' : Party} {d : Draw} (hs : Settled w.db p)
    (hfresh : ∀ id, d = .id id → ∀ m ∈ w.db.messages.rows, m.id ≠ id)
    (h : stepParty env w p d = some (w', p')) : Keeps w.db w'.db ∧ Settled w'.db p' := by
  cases p with
  | turn t pc =>
    obtain ⟨⟨w₁, pc'⟩, hstep, heq⟩ := Option.map_eq_some_iff.mp h
    obtain ⟨rfl, rfl⟩ := Prod.mk.inj heq
    exact stepTurn_settled hs hfresh hstep
  | saving row pc =>
    have hsaving : Settled w'.db p' := by
      obtain ⟨r, -, heq⟩ := Option.map_eq_some_iff.mp h
      obtain ⟨-, rfl⟩ := Prod.mk.inj heq
      trivial
    rcases stepParty_pending h with ⟨rfl, -⟩ | ⟨row', -, -, hinsert⟩ | ⟨row', -, -, rfl | hcommit⟩
    · exact ⟨.refl _, hsaving⟩
    · obtain ⟨rfl, -⟩ := insert_eq_done hinsert
      exact ⟨.refl _, hsaving⟩
    · exact ⟨.refl _, hsaving⟩
    · exact ⟨(keeps_commit hcommit).1, hsaving⟩

/-- The key of a turn that goes on. -/
def ticket : Party → Option (Uuid × Uuid)
  | .turn t (.prepared _ _ _) => t.clientMessageId.map fun id => (t.conversationId, id)
  | _ => none

/-- The commit of a turn is the first with its key. -/
theorem commit_first (hown : OwnRow t row) (hclient : row.clientMessageId = t.clientMessageId)
    (hcommit : w.commit? row = some w') {r : Party} (hr : r.Known env) (hs : Settled w.db r)
    {k : Uuid × Uuid} (hk : (t.clientMessageId.map fun id => (t.conversationId, id)) = some k) :
    ticket r ≠ some k := by
  obtain ⟨id, hid, rfl⟩ := Option.map_eq_some_iff.mp hk
  obtain ⟨db, hinsert, -⟩ := Option.map_eq_some_iff.mp hcommit
  obtain ⟨⟨c, hc, hconv⟩, hfree⟩ :=
    insertMessage_isSome_iff.mp (Option.isSome_iff_exists.mpr ⟨db, hinsert⟩)
  intro hticket
  cases r with
  | saving => cases hticket
  | turn t' pc =>
    cases pc with
    | prepared row' rows context =>
      obtain ⟨id', hid', heq⟩ := Option.map_eq_some_iff.mp hticket
      obtain ⟨hsame, rfl⟩ := Prod.mk.inj heq
      obtain ⟨hclient', hrow' | hgone⟩ := hs
      · have hown' : OwnRow t' row' := hr.1
        refine hfree row' hrow' (.inr ⟨Option.isSome_iff_exists.mpr ⟨_, hclient.trans hid⟩, ?_, ?_⟩)
        · rw [hown.conversation, hown'.conversation, hsame]
        · rw [hclient, hclient', hid, hid']
      · exact hgone c hc (by rw [hconv, hown.conversation, hsame])
    | _ => cases hticket

/-- A turn that moves takes a ticket only if nobody holds it. -/
theorem stepParty_ticket {p p' : Party} {d : Draw} (hp : p.Known env) (hs : Settled w.db p)
    (h : stepParty env w p d = some (w', p')) :
    ticket p' = none ∨ ∀ r : Party, r.Known env → Settled w.db r → ∀ k, ticket p' = some k →
      ticket r ≠ some k := by
  cases p with
  | saving row pc =>
    obtain ⟨r, -, heq⟩ := Option.map_eq_some_iff.mp h
    obtain ⟨-, rfl⟩ := Prod.mk.inj heq
    exact .inl rfl
  | turn t pc =>
    obtain ⟨⟨w₁, pc'⟩, hstep, heq⟩ := Option.map_eq_some_iff.mp h
    obtain ⟨rfl, rfl⟩ := Prod.mk.inj heq
    rcases stepTurn_cases hstep with ⟨-, -, ⟨_, _, _, rfl⟩ | ⟨_, rfl⟩⟩ | ⟨_, _, _, -, rfl, -⟩ |
      ⟨_, _, _, -, -, -, rfl⟩ | ⟨_, _, _, -, -, rfl⟩ | ⟨_, _, _, _, _, rfl, hcommit, rfl⟩
    · exact .inl rfl
    · exact .inl rfl
    · exact .inl rfl
    · exact .inl rfl
    · exact .inl rfl
    · exact .inr fun r hr hsr k hk => commit_first hp.1 hs hcommit hr hsr hk

/-- **What a cut does.** -/
theorem cut_cases {p p' : Party} (h : cut w p () = some (w', p')) :
    ∃ t, p' = .turn t .waiting ∧ ((p.pending = none ∧ w' = w) ∨
      ∃ row, p.pending = some row ∧ w' = w.rollback row) := by
  cases p with
  | saving => cases h
  | turn t pc =>
    cases pc with
    | checking =>
      obtain ⟨rfl, rfl⟩ := Prod.mk.inj (Option.some.inj h)
      exact ⟨t, rfl, .inl ⟨rfl, rfl⟩⟩
    | inserted conv row =>
      obtain ⟨rfl, rfl⟩ := Prod.mk.inj (Option.some.inj h)
      exact ⟨t, rfl, .inr ⟨row, rfl, rfl⟩⟩
    | listed conv row rows =>
      obtain ⟨rfl, rfl⟩ := Prod.mk.inj (Option.some.inj h)
      exact ⟨t, rfl, .inr ⟨row, rfl, rfl⟩⟩
    | _ => cases h

/-! ## 4. Every run -/

structure Good (env : Env) (s : Turns) : Prop where
  inv : s.Inv env
  settled : ∀ (i : Nat) p, s.parties[i]? = some p → Settled s.shared.db p
  once : s.Distinct ticket

theorem turns_good (db : Db) (upcoming : List Upcoming) : Good env (db.turns upcoming) := by
  have hparty : ∀ (i : Nat) p, (db.turns upcoming).parties[i]? = some p →
      Settled db p ∧ ticket p = none := by
    intro i p hp
    obtain ⟨u, -, rfl⟩ := List.mem_map.mp (List.mem_of_getElem? hp)
    cases u <;> exact ⟨trivial, rfl⟩
  refine ⟨turns_inv db upcoming, fun i p hp => (hparty i p hp).1, ?_⟩
  intro i j p q k hp _ hk
  rw [(hparty i p hp).2] at hk
  cases hk

theorem cut_inv {s : Turns} {i : Nat} {p p' : Party} (hs : s.Inv env)
    (hp : s.parties[i]? = some p) (h : cut s.shared p () = some (w', p')) :
    Turns.Inv env ⟨w', s.parties.set i p'⟩ := by
  obtain ⟨t, rfl, hcut⟩ := cut_cases h
  have hknown : ∀ (j : Nat) r, (s.parties.set i (.turn t .waiting))[j]? = some r → r.Known env :=
    forall_set hs.known trivial
  obtain ⟨rest, hbefore, hafter⟩ :=
    exists_perm_filterMap_set Party.pending hp (.turn t .waiting)
  have hrest := hs.pending.trans hbefore
  rcases hcut with ⟨hnone, rfl⟩ | ⟨row, hsome, rfl⟩
  · rw [hnone] at hrest
    exact ⟨hs.reserved, hrest.trans hafter.symm, hknown⟩
  · rw [hsome] at hrest
    have herase : (s.shared.pending.erase row).Perm rest := by
      have hperm := hrest.erase row
      rwa [Option.toList_some, List.singleton_append, List.erase_cons_head] at hperm
    exact ⟨hs.reserved.rollback row, herase.trans hafter.symm, hknown⟩

theorem delete_inv {s : Turns} (hs : s.Inv env)
    (hfree : ¬ ∃ m ∈ s.shared.pending, m.conversationId = id) :
    Turns.Inv env
      { s with shared := { s.shared with db := s.shared.db.deleteConversation id } } := by
  refine ⟨⟨fun row hrow => ?_, hs.reserved.apart⟩, hs.pending, hs.known⟩
  obtain ⟨⟨c, hc, hconv⟩, hclash⟩ := insertMessage_isSome_iff.mp (hs.reserved.commits row hrow)
  refine insertMessage_isSome_iff.mpr
    ⟨⟨c, List.mem_filter.mpr ⟨hc, ?_⟩, hconv⟩, fun m hm => hclash m (List.mem_filter.mp hm).1⟩
  simpa using fun hid => hfree ⟨row, hrow, by rw [← hconv, hid]⟩

theorem step_good {s s' : Turns} {l : Label} (hs : Good env s) (hfresh : Fresh s l)
    (h : step env s l = some s') : Good env s' := by
  cases l with
  | act i d =>
    have hinv := step_inv hs.inv h
    obtain ⟨p, w, p', hp, hstep, rfl⟩ := Par.act_eq_some.mp h
    have hknown := hs.inv.known i p hp
    have hold := hs.settled i p hp
    obtain ⟨hkeeps, hnew⟩ := stepParty_settled hold
      (by rintro id rfl; exact hfresh) hstep
    refine ⟨hinv, ?_, ?_⟩
    · intro j r hr
      rcases set_cases hr with ⟨rfl, rfl⟩ | ⟨-, hr⟩
      · exact hnew
      · exact (hs.settled j r hr).mono (hs.inv.known j r hr) hkeeps
    · refine hs.once.take fun j r _ hr k hk => ?_
      rcases stepParty_ticket hknown hold hstep with hnone | hfirst
      · rw [hnone] at hk
        cases hk
      · exact hfirst r (hs.inv.known j r hr) (hs.settled j r hr) k hk
  | cut i =>
    obtain ⟨p, w, p', hp, hcut, rfl⟩ := Par.act_eq_some.mp h
    have hinv := cut_inv hs.inv hp hcut
    obtain ⟨t, rfl, hw⟩ := cut_cases hcut
    have hdb : w.db = s.shared.db := by
      rcases hw with ⟨-, rfl⟩ | ⟨row, -, rfl⟩ <;> rfl
    refine ⟨hinv, ?_, hs.once.take fun _ _ _ _ k hk => by cases hk⟩
    rw [hdb]
    exact forall_set hs.settled trivial
  | deleteConversation id =>
    simp only [step] at h
    split at h
    · cases h
    · rename_i hfree
      obtain rfl := Option.some.inj h
      exact ⟨delete_inv hs.inv hfree,
        fun j r hr => (hs.settled j r hr).mono (hs.inv.known j r hr) (keeps_delete _ id), hs.once⟩

theorem run_good {upcoming : List Upcoming} {ls : List Label} {s : Turns}
    (hfresh : Guarded (step env) Fresh (db.turns upcoming) ls)
    (h : run (step env) (db.turns upcoming) ls = some s) : Good env s :=
  run_invariant (fun _ _ _ hs hl hstep => step_good hs hl hstep) (turns_good db upcoming) hfresh h

/-- **A message that is sent again.**  In any interleaving of turns, cuts and deletes, with new ids,
two turns with one `client_message_id` in one conversation do not both go on; a turn that goes on
has its message saved; and a turn is told that its message is a duplicate only if a message with its
`client_message_id` is there.  A conversation that has been deleted is the exception. -/
theorem resends {db : Db} {upcoming : List Upcoming} {ls : List Label} {s : Turns}
    (hfresh : Guarded (step env) Fresh (db.turns upcoming) ls)
    (hrun : run (step env) (db.turns upcoming) ls = some s) :
    (∀ (i j : Nat) t t' row row' rows rows' context context',
      s.parties[i]? = some (.turn t (.prepared row rows context)) →
      s.parties[j]? = some (.turn t' (.prepared row' rows' context')) →
      t.clientMessageId.isSome → t'.clientMessageId = t.clientMessageId →
      t'.conversationId = t.conversationId → i = j) ∧
    (∀ (i : Nat) t row rows context,
      s.parties[i]? = some (.turn t (.prepared row rows context)) →
      OwnRow t row ∧ row.clientMessageId = t.clientMessageId ∧
        (row ∈ s.shared.db.messages.rows ∨ Gone s.shared.db t.conversationId)) ∧
    ∀ (i : Nat) t, s.parties[i]? = some (.turn t (.raised (.app AppError.duplicateMessage))) →
      Sent s.shared.db t ∨ Gone s.shared.db t.conversationId := by
  have hs := run_good hfresh hrun
  refine ⟨?_, ?_, fun i t hi => hs.settled i _ hi rfl⟩
  · intro i j t t' row row' rows rows' context context' hi hj hsome hclient hconv
    obtain ⟨k, hk⟩ := Option.isSome_iff_exists.mp hsome
    refine hs.once i j _ _ (t.conversationId, k) hi hj ?_ ?_
    · simp only [ticket, hk, Option.map_some]
    · simp only [ticket, hclient, hconv, hk, Option.map_some]
  · intro i t row rows context hi
    have hknown : OwnRow t row ∧ _ := hs.inv.known i _ hi
    exact ⟨hknown.1, hs.settled i _ hi⟩

/-! ### One message, sent twice -/

/-- The first request is cut off after its insert, and comes again after the second one. -/
def sentTwice : List Upcoming :=
  [.turn ⟨1, 10, ['a'], some 7, none⟩, .turn ⟨1, 10, ['a'], some 7, none⟩]

def twiceRun : List Label :=
  [.act 0 (.now (sampleTime 2 second_day)), .act 1 (.now (sampleTime 2 second_day)),
    .act 0 (.id 20), .cut 0, .act 1 (.id 21), .act 1 .go, .act 1 (.id 22),
    .act 0 (.now (sampleTime 2 second_day)), .act 0 (.id 23)]

/-- What a turn has raised. -/
def failure? : Party → Option Failure
  | .turn _ (.raised e) => some e
  | _ => none

theorem resends_twice :
    ∃ s, run (step turnsEnv) (oneConversation.turns sentTwice) twiceRun = some s ∧
      s.parties.map failure? = [some (.app AppError.duplicateMessage), none] ∧
      s.shared.db.messages.rows.map MessageRow.id = [21] ∧
      ∀ (i : Nat) t, s.parties[i]? = some (.turn t (.raised (.app AppError.duplicateMessage))) →
        Sent s.shared.db t ∨ Gone s.shared.db t.conversationId := by
  have hend : (run (step turnsEnv) (oneConversation.turns sentTwice) twiceRun).map (fun s =>
      (s.parties.map failure?, s.shared.db.messages.rows.map MessageRow.id)) =
        some ([some (.app AppError.duplicateMessage), none], [21]) := by decide +kernel
  have hfresh : Guarded (step turnsEnv) Fresh (oneConversation.turns sentTwice) twiceRun := by
    decide +kernel
  obtain ⟨s, hs, heq⟩ := Option.map_eq_some_iff.mp hend
  obtain ⟨hraised, hmessages⟩ := Prod.mk.inj heq
  exact ⟨s, hs, hraised, hmessages, (resends hfresh hs).2.2⟩

end AtlasKnowledge.Services.Resends
