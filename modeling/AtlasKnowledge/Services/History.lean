/-
# The history of a turn

The order of a history is by `created_at`, the start of the inserting transaction; what it is
taken from is what is committed when it is read.  A transaction that starts later and commits
earlier stands behind the turn's own message.

* `pending_commits`: what a transaction in progress has inserted can be read and committed;
* `answers_own_question`: every history is in order and within the limit; it ends with the turn's
  own message in every run in which no turn is overtaken, and with another one in a turn that is;
* `not_answers_own_question`: two turns, the later of which commits first.
-/
import AtlasKnowledge.Services.Traversal
import AtlasKnowledge.Services.Turns
import AtlasKnowledge.Services.Writes

namespace AtlasKnowledge.Services

open Chat (ChatMessage)
open Interleave Transition
open Pagination (Timestamp rowPosition)

/-! ## 1. Inserts in progress -/

variable {db db' : Db} {row other : MessageRow} {s s' : Store}

theorem insertMessage_isSome_iff :
    (db.insertMessage? row).isSome = true ↔
      (∃ c ∈ db.conversations.rows, c.id = row.conversationId) ∧
        ∀ m ∈ db.messages.rows, ¬ Conflict row m := by
  unfold Db.insertMessage?
  by_cases hfk : ∃ c ∈ db.conversations.rows, c.id = row.conversationId
  · rw [dif_pos hfk, and_iff_right hfk]
    split
    · rename_i htaken
      obtain ⟨hsome, m, hm, hconv, hclient⟩ := htaken
      simp only [Option.isSome_none, Bool.false_eq_true, false_iff]
      exact fun h => h m hm (.inr ⟨hsome, hconv.symm, hclient.symm⟩)
    · rename_i hnew
      split
      · rename_i hnone
        simp only [Option.isSome_none, Bool.false_eq_true, false_iff]
        intro h
        obtain ⟨t, ht⟩ := Table.insert_of_free fun m hm hid => h m hm (.inl (Eq.symm hid))
        cases hnone.symm.trans ht
      · rename_i messages hinsert
        simp only [Option.isSome_some, true_iff]
        rintro m hm (hid | ⟨hsome, hconv, hclient⟩)
        · exact (Table.insert_eq_some hinsert).2 m hm hid.symm
        · exact hnew ⟨hsome, m, hm, hconv.symm, hclient.symm⟩
  · rw [dif_neg hfk]
    simp [hfk]

/-- An insert keeps the way free for a row that does not conflict with it. -/
theorem insertMessage_other (h : db.insertMessage? row = some db') (hne : ¬ Conflict other row)
    (hother : (db.insertMessage? other).isSome = true) :
    (db'.insertMessage? other).isSome = true := by
  obtain ⟨hinsert, hconversations, -⟩ := insertMessage_tables h
  obtain ⟨hfk, hfree⟩ := insertMessage_isSome_iff.mp hother
  refine insertMessage_isSome_iff.mpr ⟨hconversations ▸ hfk, ?_⟩
  exact Table.forall_mem_insert hinsert hne hfree

/-- What is in progress can be committed, in any order. -/
structure Store.Reserved (s : Store) : Prop where
  commits : ∀ row ∈ s.pending, (s.db.insertMessage? row).isSome = true
  apart : s.pending.Pairwise fun a b => ¬ Conflict a b

theorem Conflict.symm {a b : MessageRow} (h : Conflict a b) : Conflict b a := by
  rcases h with hid | ⟨hsome, hconv, hclient⟩
  · exact .inl hid.symm
  · exact .inr ⟨hclient ▸ hsome, hconv.symm, hclient.symm⟩

/-- **What an insert does.** -/
theorem insert_eq_done (h : s.insert row = .done s') :
    s' = { s with pending := row :: s.pending } ∧ (s.db.insertMessage? row).isSome = true ∧
      ∀ other ∈ s.pending, ¬ Conflict other row := by
  unfold Store.insert at h
  split at h
  · exact nomatch h
  · rename_i hfree
    split at h
    · exact nomatch h
    · rename_i hsome
      refine ⟨(Inserted.done.inj h).symm, by rw [hsome]; rfl, ?_⟩
      exact fun other hother hc => hfree ⟨other, hother, hc⟩

theorem Store.Reserved.insert (hs : s.Reserved) (h : s.insert row = .done s') : s'.Reserved := by
  obtain ⟨rfl, hsome, hfree⟩ := insert_eq_done h
  exact ⟨List.forall_mem_cons.mpr ⟨hsome, hs.commits⟩,
    List.pairwise_cons.mpr ⟨fun other hother hc => hfree other hother hc.symm, hs.apart⟩⟩

theorem Store.Reserved.rollback (hs : s.Reserved) (row : MessageRow) : (s.rollback row).Reserved :=
  ⟨fun other hother => hs.commits other (List.mem_of_mem_erase hother),
    hs.apart.sublist List.erase_sublist⟩

/-- The others in progress are none that the row conflicts with. -/
theorem Store.Reserved.erase (hs : s.Reserved) (hrow : row ∈ s.pending)
    (hother : other ∈ s.pending.erase row) : ¬ Conflict other row := by
  have hperm : s.pending.Perm (row :: s.pending.erase row) := List.perm_cons_erase hrow
  have happart : (row :: s.pending.erase row).Pairwise fun a b => ¬ Conflict a b :=
    (hperm.pairwise_iff fun {a b} h hc => h hc.symm).mp hs.apart
  exact fun hc => (List.pairwise_cons.mp happart).1 other hother hc.symm

theorem Store.Reserved.commit (hs : s.Reserved) (hrow : row ∈ s.pending)
    (h : s.commit? row = some s') : s'.Reserved := by
  obtain ⟨db, hdb, rfl⟩ := Option.map_eq_some_iff.mp h
  refine ⟨?_, hs.apart.sublist List.erase_sublist⟩
  intro other hother
  exact insertMessage_other hdb (hs.erase hrow hother)
    (hs.commits other (List.mem_of_mem_erase hother))

/-! ## 2. What a history is -/

variable {env : Env}

/-- The order of the messages. -/
abbrev messagePosition (env : Env) (m : MessageRow) : Pagination.Position :=
  rowPosition env.localOffset messageKey m

/-- A message of the conversation is committed that stands behind the row: its transaction
started later, or at the same instant with a larger id. -/
def Overtaken (env : Env) (db : Db) (row : MessageRow) : Prop :=
  ∃ m ∈ db.messages.rows, m.conversationId = row.conversationId ∧
    messagePosition env row < messagePosition env m

instance (env : Env) (db : Db) (row : MessageRow) : Decidable (Overtaken env db row) :=
  inferInstanceAs (Decidable (∃ m ∈ db.messages.rows, _))

/-- In ascending order and within the limit. -/
structure InOrder (env : Env) (rows : List MessageRow) : Prop where
  ascending : rows.Pairwise fun a b => messagePosition env a < messagePosition env b
  bounded : rows.length ≤ env.historyLimit

theorem listRecent_inOrder (db : Db) (conversationId : Uuid) :
    InOrder env (listRecent env.localOffset db conversationId env.historyLimit) := by
  refine ⟨?_, ?_⟩
  · rw [listRecent, List.pairwise_reverse]
    exact (Keyset.descending_strict (nodup_position fun _ => rfl)).sublist (List.take_sublist _ _)
  · rw [listRecent, List.length_reverse]
    exact List.length_take_le _ _

/-- **The last row of a history.**  It is the turn's own row unless the turn is overtaken. -/
theorem listRecent_last_iff (hlimit : 1 ≤ env.historyLimit) (h : db.insertMessage? row = some db') :
    (listRecent env.localOffset db' row.conversationId env.historyLimit).getLast? = some row ↔
      ¬ Overtaken env db row := by
  obtain ⟨hinsert, -⟩ := insertMessage_tables h
  have hrow : row ∈ db'.messages.select fun m => m.conversationId = row.conversationId :=
    Table.mem_select.mpr ⟨(Table.mem_insert hinsert).mpr (.inl rfl), decide_eq_true rfl⟩
  have hnodup : ((db'.messages.select fun m => m.conversationId = row.conversationId).map
      (rowPosition env.localOffset messageKey)).Nodup := nodup_position fun _ => rfl
  have hhead : ∀ l : List MessageRow, (l.take env.historyLimit).head? = l.head? := by
    intro l
    rw [List.head?_take, if_neg (by omega)]
  rw [listRecent, List.getLast?_reverse, hhead,
    Keyset.head_descending_iff hnodup, and_iff_right hrow, Overtaken]
  constructor
  · rintro hle ⟨m, hm, hconv, hlt⟩
    have hmem : m ∈ db'.messages.select fun m => m.conversationId = row.conversationId :=
      Table.mem_select.mpr ⟨(Table.mem_insert hinsert).mpr (.inr hm), decide_eq_true hconv⟩
    exact absurd hlt (not_lt.mpr (hle m hmem))
  · intro hnot m hm
    obtain ⟨hm, hconv⟩ := Table.mem_select.mp hm
    rcases (Table.mem_insert hinsert).mp hm with rfl | hm
    · exact le_rfl
    · exact not_lt.mp fun hlt => hnot ⟨m, hm, of_decide_eq_true hconv, hlt⟩

/-! ## 3. One step -/

/-- What a party has in progress. -/
def Party.pending : Party → Option MessageRow
  | .turn _ (.inserted _ row) => some row
  | .turn _ (.listed _ row _) => some row
  | .saving _ (.inserted row) => some row
  | _ => none

/-- The row of the turn. -/
structure OwnRow (t : Turn) (row : MessageRow) : Prop where
  conversation : row.conversationId = t.conversationId
  role : row.role = .user
  content : row.content = t.content

/-- What is known of a turn. -/
def TurnPc.Known (env : Env) (t : Turn) : TurnPc → Prop
  | .inserted _ row => OwnRow t row
  | .listed _ row rows => OwnRow t row ∧ InOrder env rows
  | .prepared row rows context => OwnRow t row ∧ InOrder env rows ∧
      context.history = rows.map fun m => ⟨m.role, m.content⟩
  | _ => True

def Party.Known (env : Env) : Party → Prop
  | .turn t pc => pc.Known env t
  | .saving _ _ => True

/-- The history of the turn ends with the turn's own row. -/
def Party.Own : Party → Prop
  | .turn _ (.listed _ row rows) => rows.getLast? = some row
  | .turn _ (.prepared row rows _) => rows.getLast? = some row
  | _ => True

/-- **What a statement of `_prepare_turn` can do.** -/
theorem stepTurn_cases {t : Turn} {pc pc' : TurnPc} {d : Draw}
    (h : stepTurn env s t pc d = some (s', pc')) :
    (s' = s ∧ (Party.turn t pc).pending = none ∧
      ((∃ now conv ids, pc' = .checking now conv ids) ∨ ∃ e, pc' = .raised e)) ∨
    (∃ now conv row, pc = .checking now conv [] ∧ pc' = .inserted conv row ∧ OwnRow t row ∧
      s.insert row = .done s') ∨
    (∃ conv row view, pc = .inserted conv row ∧ s' = s ∧ s.db.insertMessage? row = some view ∧
      pc' = .listed conv row
        (listRecent env.localOffset view t.conversationId env.historyLimit)) ∨
    (∃ conv row rows, pc = .listed conv row rows ∧ s' = s.rollback row ∧ pc' = .raised .keyError) ∨
    ∃ conv row rows params id, pc = .listed conv row rows ∧ s.commit? row = some s' ∧
      pc' = .prepared row rows (turnContext env t conv row rows params id) := by
  cases pc with
  | waiting =>
    cases d with
    | now now =>
      simp only [stepTurn] at h
      split at h
      · obtain ⟨rfl, rfl⟩ := Prod.mk.inj (Option.some.inj h)
        exact .inl ⟨rfl, rfl, .inr ⟨_, rfl⟩⟩
      · obtain ⟨rfl, rfl⟩ := Prod.mk.inj (Option.some.inj h)
        exact .inl ⟨rfl, rfl, .inl ⟨_, _, _, rfl⟩⟩
    | id | go => exact nomatch h
  | checking now conv ids =>
    cases ids with
    | nil =>
      cases d with
      | id id =>
        simp only [stepTurn] at h
        split at h
        · exact nomatch h
        · obtain ⟨rfl, rfl⟩ := Prod.mk.inj (Option.some.inj h)
          exact .inl ⟨rfl, rfl, .inr ⟨_, rfl⟩⟩
        · rename_i hinsert
          obtain ⟨rfl, rfl⟩ := Prod.mk.inj (Option.some.inj h)
          exact .inr (.inl ⟨now, conv, _, rfl, rfl, ⟨rfl, rfl, rfl⟩, hinsert⟩)
      | now | go => exact nomatch h
    | cons sourceId rest =>
      cases d with
      | go =>
        simp only [stepTurn] at h
        split at h
        · obtain ⟨rfl, rfl⟩ := Prod.mk.inj (Option.some.inj h)
          exact .inl ⟨rfl, rfl, .inr ⟨_, rfl⟩⟩
        · obtain ⟨rfl, rfl⟩ := Prod.mk.inj (Option.some.inj h)
          exact .inl ⟨rfl, rfl, .inl ⟨_, _, _, rfl⟩⟩
      | now | id => exact nomatch h
  | inserted conv row =>
    cases d with
    | go =>
      obtain ⟨view, hview, heq⟩ := Option.map_eq_some_iff.mp h
      obtain ⟨rfl, rfl⟩ := Prod.mk.inj heq
      exact .inr (.inr (.inl ⟨conv, row, view, rfl, rfl, hview, rfl⟩))
    | now | id => exact nomatch h
  | listed conv row rows =>
    cases d with
    | id id =>
      simp only [stepTurn] at h
      split at h
      · obtain ⟨rfl, rfl⟩ := Prod.mk.inj (Option.some.inj h)
        exact .inr (.inr (.inr (.inl ⟨conv, row, rows, rfl, rfl, rfl⟩)))
      · obtain ⟨s₁, hcommit, heq⟩ := Option.map_eq_some_iff.mp h
        obtain ⟨rfl, rfl⟩ := Prod.mk.inj heq
        exact .inr (.inr (.inr (.inr ⟨conv, row, rows, _, id, rfl, hcommit, rfl⟩)))
    | now | go => exact nomatch h
  | prepared | raised => cases d <;> exact nomatch h

theorem known_step {p p' : Party} {d : Draw} (hp : p.Known env)
    (h : stepParty env s p d = some (s', p')) : p'.Known env := by
  cases p with
  | saving row pc =>
    obtain ⟨r, -, heq⟩ := Option.map_eq_some_iff.mp h
    obtain ⟨-, rfl⟩ := Prod.mk.inj heq
    trivial
  | turn t pc =>
    obtain ⟨⟨s₁, pc'⟩, hstep, heq⟩ := Option.map_eq_some_iff.mp h
    obtain ⟨rfl, rfl⟩ := Prod.mk.inj heq
    rcases stepTurn_cases hstep with ⟨-, -, ⟨_, _, _, rfl⟩ | ⟨_, rfl⟩⟩ |
      ⟨_, _, _, -, rfl, hown, -⟩ |
      ⟨_, _, _, rfl, -, -, rfl⟩ | ⟨_, _, _, rfl, -, rfl⟩ | ⟨_, _, _, _, _, rfl, -, rfl⟩
    · trivial
    · trivial
    · exact hown
    · exact ⟨hp, listRecent_inOrder _ _⟩
    · trivial
    · exact ⟨hp.1, hp.2, rfl⟩

/-- A turn whose history is read before it is overtaken has its own row at the end. -/
theorem own_step {p p' : Party} {d : Draw} (hlimit : 1 ≤ env.historyLimit) (hknown : p.Known env)
    (hp : p.Own) (hok : ∀ t conv row, p = .turn t (.inserted conv row) → ¬ Overtaken env s.db row)
    (h : stepParty env s p d = some (s', p')) : p'.Own := by
  cases p with
  | saving row pc =>
    obtain ⟨r, -, heq⟩ := Option.map_eq_some_iff.mp h
    obtain ⟨-, rfl⟩ := Prod.mk.inj heq
    trivial
  | turn t pc =>
    obtain ⟨⟨s₁, pc'⟩, hstep, heq⟩ := Option.map_eq_some_iff.mp h
    obtain ⟨rfl, rfl⟩ := Prod.mk.inj heq
    rcases stepTurn_cases hstep with ⟨-, -, ⟨_, _, _, rfl⟩ | ⟨_, rfl⟩⟩ | ⟨_, _, _, -, rfl, -⟩ |
      ⟨conv, row, view, rfl, -, hview, rfl⟩ | ⟨_, _, _, rfl, -, rfl⟩ | ⟨_, _, _, _, _, rfl, -, rfl⟩
    · trivial
    · trivial
    · trivial
    · have hown : OwnRow t row := hknown
      have hlast := (listRecent_last_iff hlimit hview).mpr (hok t conv row rfl)
      rwa [hown.conversation] at hlast
    · trivial
    · exact hp

/-- What a step does to the inserts in progress. -/
theorem stepParty_pending {p p' : Party} {d : Draw} (h : stepParty env s p d = some (s', p')) :
    (s' = s ∧ p'.pending = p.pending) ∨
    (∃ row, p.pending = none ∧ p'.pending = some row ∧ s.insert row = .done s') ∨
    ∃ row, p.pending = some row ∧ p'.pending = none ∧
      (s' = s.rollback row ∨ s.commit? row = some s') := by
  cases p with
  | saving row pc =>
    obtain ⟨⟨s₁, pc'⟩, hstep, heq⟩ := Option.map_eq_some_iff.mp h
    obtain ⟨rfl, rfl⟩ := Prod.mk.inj heq
    cases pc with
    | waiting =>
      cases d with
      | now now =>
        simp only [stepSaving] at hstep
        split at hstep
        · exact nomatch hstep
        · obtain ⟨rfl, rfl⟩ := Prod.mk.inj (Option.some.inj hstep)
          exact .inl ⟨rfl, rfl⟩
        · rename_i hinsert
          obtain ⟨rfl, rfl⟩ := Prod.mk.inj (Option.some.inj hstep)
          exact .inr (.inl ⟨_, rfl, rfl, hinsert⟩)
      | id | go => exact nomatch hstep
    | inserted row' =>
      cases d with
      | go =>
        obtain ⟨s₂, hcommit, heq⟩ := Option.map_eq_some_iff.mp hstep
        obtain ⟨rfl, rfl⟩ := Prod.mk.inj heq
        exact .inr (.inr ⟨row', rfl, rfl, .inr hcommit⟩)
      | now | id => exact nomatch hstep
    | committed | failed => cases d <;> exact nomatch hstep
  | turn t pc =>
    obtain ⟨⟨s₁, pc'⟩, hstep, heq⟩ := Option.map_eq_some_iff.mp h
    obtain ⟨rfl, rfl⟩ := Prod.mk.inj heq
    rcases stepTurn_cases hstep with ⟨rfl, hnone, ⟨_, _, _, rfl⟩ | ⟨_, rfl⟩⟩ |
      ⟨_, _, row, rfl, rfl, -, hinsert⟩ | ⟨_, _, _, rfl, rfl, -, rfl⟩ | ⟨_, row, _, rfl, rfl, rfl⟩ |
      ⟨_, row, _, _, _, rfl, hcommit, rfl⟩
    · exact .inl ⟨rfl, hnone.symm⟩
    · exact .inl ⟨rfl, hnone.symm⟩
    · exact .inr (.inl ⟨row, rfl, rfl, hinsert⟩)
    · exact .inl ⟨rfl, rfl⟩
    · exact .inr (.inr ⟨row, rfl, rfl, .inl rfl⟩)
    · exact .inr (.inr ⟨row, rfl, rfl, .inr hcommit⟩)

/-! ## 4. Runs -/

/-- The inserts in progress are those of the parties, and they can be committed. -/
structure Turns.Inv (env : Env) (s : Turns) : Prop where
  reserved : s.shared.Reserved
  pending : s.shared.pending.Perm (s.parties.filterMap Party.pending)
  known : ∀ (i : Nat) p, s.parties[i]? = some p → p.Known env

theorem turns_inv (db : Db) (upcoming : List Upcoming) : (db.turns upcoming).Inv env := by
  have hparty : ∀ p ∈ upcoming.map Upcoming.party, p.pending = none ∧ p.Known env := by
    intro p hp
    obtain ⟨u, -, rfl⟩ := List.mem_map.mp hp
    cases u <;> exact ⟨rfl, trivial⟩
  have hpending : (upcoming.map Upcoming.party).filterMap Party.pending = [] :=
    List.filterMap_eq_nil_iff.mpr fun p hp => (hparty p hp).1
  refine ⟨⟨fun _ h => absurd h List.not_mem_nil, .nil⟩, ?_, ?_⟩
  · simp only [Db.turns, hpending, List.Perm.refl]
  · intro i p hp
    exact (hparty p (List.mem_of_getElem? hp)).2

theorem step_inv {s s' : Turns} {l : Nat × Draw} (hs : s.Inv env) (h : s.step env l = some s') :
    s'.Inv env := by
  obtain ⟨p, w, q, hp, hstep, rfl⟩ := Par.act_eq_some.mp h
  have hknown : ∀ (j : Nat) r, (s.parties.set l.1 q)[j]? = some r → r.Known env :=
    forall_set hs.known (known_step (hs.known l.1 p hp) hstep)
  obtain ⟨rest, hbefore, hafter⟩ := exists_perm_filterMap_set Party.pending hp q
  have hrest := hs.pending.trans hbefore
  rcases stepParty_pending hstep with ⟨rfl, heq⟩ | ⟨row, hnone, hsome, hinsert⟩ |
    ⟨row, hsome, hnone, hend⟩
  · refine ⟨hs.reserved, ?_, hknown⟩
    rw [heq] at hafter
    exact hrest.trans hafter.symm
  · refine ⟨hs.reserved.insert hinsert, ?_, hknown⟩
    obtain ⟨rfl, -⟩ := insert_eq_done hinsert
    rw [hnone] at hrest
    rw [hsome] at hafter
    exact (hrest.cons row).trans hafter.symm
  · rw [hsome] at hrest
    rw [hnone] at hafter
    have hmem : row ∈ s.shared.pending := hrest.mem_iff.mpr (by simp)
    have herase : (s.shared.pending.erase row).Perm rest := by
      have := hrest.erase row
      rwa [Option.toList_some, List.singleton_append, List.erase_cons_head] at this
    rcases hend with rfl | hcommit
    · exact ⟨hs.reserved.rollback row, herase.trans hafter.symm, hknown⟩
    · refine ⟨hs.reserved.commit hmem hcommit, ?_, hknown⟩
      obtain ⟨db, -, rfl⟩ := Option.map_eq_some_iff.mp hcommit
      exact herase.trans hafter.symm

theorem inv_of_run {db : Db} {upcoming : List Upcoming} {ls : List (Nat × Draw)} {s : Turns}
    (h : run (Turns.step env) (db.turns upcoming) ls = some s) : s.Inv env :=
  run_invariant_of_step (fun _ _ _ hs hl => step_inv hs hl) (turns_inv db upcoming) h

/-- **Nothing in progress is stuck**: what a party has inserted is visible to it and can be
committed. -/
theorem pending_commits {db : Db} {upcoming : List Upcoming} {ls : List (Nat × Draw)} {s : Turns}
    (h : run (Turns.step env) (db.turns upcoming) ls = some s) {i : Nat} {p : Party}
    {row : MessageRow} (hp : s.parties[i]? = some p) (hrow : p.pending = some row) :
    (s.shared.db.insertMessage? row).isSome = true := by
  have hs := inv_of_run h
  refine hs.reserved.commits row (hs.pending.mem_iff.mpr ?_)
  exact List.mem_filterMap.mpr ⟨p, List.mem_of_getElem? hp, hrow⟩

/-- The turn reads its history next, and is overtaken or not. -/
def Punctual (env : Env) (s : Turns) (l : Nat × Draw) : Prop :=
  match s.parties[l.1]? with
  | some (.turn _ (.inserted _ row)) => ¬ Overtaken env s.shared.db row
  | _ => True

instance (env : Env) (s : Turns) (l : Nat × Draw) : Decidable (Punctual env s l) := by
  unfold Punctual
  split <;> infer_instance

theorem step_own {s s' : Turns} {l : Nat × Draw} (hlimit : 1 ≤ env.historyLimit)
    (hs : s.Inv env) (hown : ∀ (i : Nat) p, s.parties[i]? = some p → p.Own)
    (hok : Punctual env s l) (h : s.step env l = some s') :
    ∀ (i : Nat) p, s'.parties[i]? = some p → p.Own := by
  obtain ⟨p, w, q, hp, hstep, rfl⟩ := Par.act_eq_some.mp h
  refine forall_set hown (own_step hlimit (hs.known l.1 p hp) (hown l.1 p hp) ?_ hstep)
  rintro t conv row rfl
  rwa [Punctual, hp] at hok

/-- **A turn answers its own question.**  For every limit from one on, every database, every list
of turns and of transactions that save answers, and every interleaving of their statements: each
history is in ascending order and within the limit.  In a run in which every turn reads its history
before it is overtaken, the prompt ends with the turn's own content; and a turn that reads its
history has its own message at the end exactly when it is not overtaken. -/
theorem answers_own_question (env : Env) (hlimit : 1 ≤ env.historyLimit) (db : Db)
    (upcoming : List Upcoming) (ls : List (Nat × Draw)) (s : Turns)
    (hrun : run (Turns.step env) (db.turns upcoming) ls = some s) :
    (∀ (i : Nat) t row rows context,
      s.parties[i]? = some (.turn t (.prepared row rows context)) →
      InOrder env rows ∧ context.history = rows.map fun m => ⟨m.role, m.content⟩) ∧
    (Guarded (Turns.step env) (Punctual env) (db.turns upcoming) ls →
      ∀ (i : Nat) t row rows context,
        s.parties[i]? = some (.turn t (.prepared row rows context)) →
        context.history.getLast? = some ⟨.user, t.content⟩) ∧
    ∀ (i : Nat) t conv row, s.parties[i]? = some (.turn t (.inserted conv row)) →
      ∃ s' rows, s.step env (i, .go) = some s' ∧
        s'.parties[i]? = some (.turn t (.listed conv row rows)) ∧
        (rows.getLast? = some row ↔ ¬ Overtaken env s.shared.db row) := by
  have hs := inv_of_run hrun
  refine ⟨?_, ?_, ?_⟩
  · intro i t row rows context hi
    exact (hs.known i _ hi).2
  · intro hguard i t row rows context hi
    have hinv : s.Inv env ∧ ∀ (i : Nat) p, s.parties[i]? = some p → p.Own := by
      have hpreserved : ∀ (s : Turns) l s',
          (s.Inv env ∧ ∀ (i : Nat) p, s.parties[i]? = some p → p.Own) → Punctual env s l →
          s.step env l = some s' →
          s'.Inv env ∧ ∀ (i : Nat) p, s'.parties[i]? = some p → p.Own :=
        fun s l s' h hok hl => ⟨step_inv h.1 hl, step_own hlimit h.1 h.2 hok hl⟩
      refine run_invariant hpreserved ⟨turns_inv db upcoming, ?_⟩ hguard hrun
      intro i p hp
      obtain ⟨u, -, rfl⟩ := List.mem_map.mp (List.mem_of_getElem? hp)
      cases u <;> exact trivial
    obtain ⟨hown, -, hhistory⟩ := hs.known i _ hi
    have hlast : rows.getLast? = some row := hinv.2 i _ hi
    rw [hhistory, List.getLast?_map, hlast, Option.map_some, hown.role, hown.content]
  · intro i t conv row hi
    have hown : OwnRow t row := hs.known i _ hi
    obtain ⟨view, hview⟩ := Option.isSome_iff_exists.mp (pending_commits hrun hi rfl)
    let rows := listRecent env.localOffset view t.conversationId env.historyLimit
    have hstep : stepParty env s.shared (.turn t (.inserted conv row)) .go
        = some (s.shared, .turn t (.listed conv row rows)) := by
      simp only [stepParty, stepTurn, hview, Option.map_some]
      rfl
    refine ⟨_, rows, Par.act_eq_some.mpr ⟨_, _, _, hi, hstep, rfl⟩, set_self hi, ?_⟩
    have hlast := listRecent_last_iff hlimit hview
    rwa [hown.conversation] at hlast

/-! ### Two questions in one conversation -/

def turnsEnv : Env where
  localOffset _ := 0
  sha256 _ := []
  lower text := text
  defaultAlias := "default"
  aliases _ := some { model := "m" }
  historyLimit := 5
  systemPrompt := []

def oneConversation : Db :=
  { Db.empty with
    conversations := ⟨[{
      id := 10, userId := 1, modelAlias := "default"
      createdAt := sampleTime 1 first_day, updatedAt := sampleTime 1 first_day }], by simp⟩
    messages_fk := fun _ h => absurd h List.not_mem_nil }

def twoQuestions : List Upcoming :=
  [.turn ⟨1, 10, ['a'], none, none⟩, .turn ⟨1, 10, ['b'], none, none⟩]

/-- Statement by statement, each in its own transaction. -/
def sideBySide : List (Nat × Draw) :=
  [(0, .now (sampleTime 2 second_day)), (1, .now (sampleTime 3 (by decide))), (0, .id 20),
    (1, .id 22), (0, .go), (1, .go), (0, .id 21), (1, .id 23)]

/-- The second starts later and commits before the first reads its history. -/
def overtaking : List (Nat × Draw) :=
  [(0, .now (sampleTime 2 second_day)), (1, .now (sampleTime 3 (by decide))), (1, .id 22), (1, .go),
    (1, .id 23), (0, .id 20), (0, .go), (0, .id 21)]

/-- The turn at a position and its history, once it is prepared. -/
def Turns.history (s : Turns) (i : Nat) : Option (Turn × List ChatMessage) :=
  match s.parties[i]? with
  | some (.turn t (.prepared _ _ context)) => some (t, context.history)
  | _ => none

theorem exists_of_history {s : Turns} {i : Nat} {t : Turn} {history : List ChatMessage}
    (h : s.history i = some (t, history)) : ∃ row rows context,
      s.parties[i]? = some (.turn t (.prepared row rows context)) ∧ context.history = history := by
  unfold Turns.history at h
  split at h
  · rename_i t' row rows context hparty
    obtain ⟨rfl, rfl⟩ := Prod.mk.inj (Option.some.inj h)
    exact ⟨row, rows, context, hparty, rfl⟩
  · exact nomatch h

theorem answers_own_question_sideBySide :
    ∃ s, run (Turns.step turnsEnv) (oneConversation.turns twoQuestions) sideBySide = some s ∧
      ∀ (i : Nat) t row rows context,
        s.parties[i]? = some (.turn t (.prepared row rows context)) →
        context.history.getLast? = some ⟨.user, t.content⟩ := by
  have hsome : (run (Turns.step turnsEnv) (oneConversation.turns twoQuestions) sideBySide).isSome =
      true := by decide +kernel
  have hguard : Guarded (Turns.step turnsEnv) (Punctual turnsEnv)
      (oneConversation.turns twoQuestions) sideBySide := by decide +kernel
  obtain ⟨s, hs⟩ := Option.isSome_iff_exists.mp hsome
  exact ⟨s, hs, (answers_own_question turnsEnv (by decide) oneConversation twoQuestions sideBySide s
    hs).2.1 hguard⟩

/-- The prompt of the first question ends with the second. -/
theorem not_answers_own_question :
    ¬ ∀ (env : Env), 1 ≤ env.historyLimit → ∀ (db : Db) (upcoming : List Upcoming)
      (ls : List (Nat × Draw)) (s : Turns),
      run (Turns.step env) (db.turns upcoming) ls = some s →
      ∀ (i : Nat) t row rows context,
        s.parties[i]? = some (.turn t (.prepared row rows context)) →
        context.history.getLast? = some ⟨.user, t.content⟩ := by
  intro h
  have hend : (run (Turns.step turnsEnv) (oneConversation.turns twoQuestions) overtaking).map
      (fun s => s.history 0)
        = some (some (⟨1, 10, ['a'], none, none⟩, [⟨.user, ['a']⟩, ⟨.user, ['b']⟩])) := by
    decide +kernel
  obtain ⟨s, hs, hhistory⟩ := Option.map_eq_some_iff.mp hend
  obtain ⟨row, rows, context, hparty, hcontext⟩ := exists_of_history hhistory
  have hlast := h turnsEnv (by decide) oneConversation twoQuestions overtaking s hs 0 _ row rows
    context hparty
  rw [hcontext] at hlast
  exact absurd hlast (by decide)

end AtlasKnowledge.Services
