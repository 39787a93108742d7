/-
# The title of a conversation

`generate_title` (`workers/tasks/titles.py`) asks the provider for a title after the first answer
and writes it, while the user may rename or delete the conversation and the chat goes on.  The
broker may deliver the task any number of times, and the task may die at every point.

* `clean_spec`: what `_clean` makes of a reply;
* `titles`: in every interleaving a generated title is written at most once for a conversation and
  never over one of the user's, and it is the cleaned text of a whole reply to the conversation's
  own first messages.
-/
import AtlasKnowledge.Lib.Assertions
import AtlasKnowledge.Lib.Transition
import AtlasKnowledge.Services.Turns
import AtlasKnowledge.Services.Upload
import AtlasKnowledge.Services.Writes

namespace AtlasKnowledge.Services.Titles

open Chat (ChatMessage ModelParams Role StreamEvent)
open Interleave Transition
open Pagination (Timestamp rowPosition)
open Str (strip splitlines stripChars isLineBreak)

/-! ## 1. `_clean` -/

/-- `_TITLE_MAX_CHARS`. -/
def titleMaxChars : Nat := 20

/-- `_STRIP_CHARS`. -/
def titleStripChars : Text := " \t\r\n「」『』\"'“”‘’".toList

/-- `_clean`. -/
def clean (raw : Text) : Text :=
  let stripped := strip raw
  if stripped = [] then []
  else (stripChars titleStripChars ((splitlines stripped).headD [])).take titleMaxChars

/-- **A clean title** is a piece of the reply, short, on one line, and does not begin with a quote
or a blank. -/
theorem clean_spec (raw : Text) :
    clean raw <:+: raw ∧ (clean raw).length ≤ titleMaxChars ∧
      (∀ c ∈ clean raw, isLineBreak c = false) ∧
      ∀ c, (clean raw).head? = some c → c ∉ titleStripChars := by
  unfold clean
  by_cases hblank : strip raw = []
  · simp [hblank]
  · simp only [hblank, if_false]
    have hline : (splitlines (strip raw)).headD [] =
        (strip raw).takeWhile fun c => !isLineBreak c := by
      rw [List.headD_eq_head?_getD, Str.head_splitlines hblank, Option.getD_some]
    rw [hline]
    set line := (strip raw).takeWhile fun c => !isLineBreak c with hdef
    have hcut : (stripChars titleStripChars line).take titleMaxChars <:+: line :=
      (List.take_prefix _ _).isInfix.trans (Str.stripChars_infix _ _)
    have hraw : line <:+: raw :=
      (List.takeWhile_prefix _).isInfix.trans ((List.rdropWhile_prefix _ _).isInfix.trans
        (List.dropWhile_suffix _).isInfix)
    refine ⟨hcut.trans hraw, List.length_take_le _ _, fun c hc => ?_, fun c hc => ?_⟩
    · have hmem : c ∈ line := hcut.subset hc
      simpa using List.mem_takeWhile_imp hmem
    · refine Str.head_stripChars (s := line) ?_
      rwa [List.head?_take, if_neg (by decide)] at hc

/-! ## 2. The task -/

/-- `_TITLE_SYSTEM`. -/
def titleSystem : Text :=
  ("你是為對話生成標題的助理。根據使用者的第一則訊息與助理的回覆," ++
    "產出一個不超過 20 字、精準概括主題的繁體中文標題。" ++
    "只輸出標題本身,不要加引號、句末標點或任何多餘說明。").toList

/-- `title_prompt`. -/
def titlePrompt (userContent assistantContent : Text) : List ChatMessage :=
  [⟨.system, titleSystem⟩,
    ⟨.user, "使用者:".toList ++ userContent ++ "\n助理:".toList ++ assistantContent⟩]

/-- `MessageRepository.first_of_role`. -/
def firstOfRole (localOffset : Datetime → Int) (db : Db) (conversationId : Uuid) (role : Role) :
    Option MessageRow :=
  let rows := db.messages.select fun m => m.conversationId = conversationId && m.role = role
  (Keyset.descending (rowPosition localOffset messageKey) rows).getLast?

/-- `ConversationRepository.set_title_if_null`. -/
def setTitleIfNull (db : Db) (id : Uuid) (title : Text) (now : Timestamp) : Db :=
  match db.conversations.selectOne fun c => c.id = id && c.title.isNone with
  | some _ => db.updateConversation id (some title) now
  | none => db

/-- What the provider was asked, and what it has sent so far. -/
structure Asked where
  model : String
  prompt : List ChatMessage
  events : List (StreamEvent Text) := []

/-- `parts`. -/
def Asked.parts (a : Asked) : List Text :=
  a.events.filterMap fun ev => match ev with
    | .textDelta text => some text
    | _ => none

inductive TaskPc where
  | loading
  | readingUser (modelAlias : String)
  | readingAssistant (modelAlias : String) (userMsg : Option MessageRow)
  | streaming (asked : Asked)
  | writing (asked : Asked) (title : Text)
  | ended

/-- `ConversationService.rename`: the update is skipped if it changes nothing, and raises if the
row is gone. -/
inductive RenamePc where
  | loading
  | writing (conv : ConversationRow)
  | ended

inductive Party where
  | task (conversationId : Uuid) (pc : TaskPc)
  | rename (userId conversationId : Uuid) (title : Text) (pc : RenamePc)
  | delete (userId conversationId : Uuid) (loaded : Option ConversationRow) (ended : Bool)

/-- Who has written a title. -/
inductive Origin where
  | user
  | generated (asked : Asked)

structure Written where
  conversationId : Uuid
  title : Text
  origin : Origin

/-- The database; ghosts are all titles ever written, and the ids of all conversations ever
created. -/
structure Shared where
  db : Db := .empty
  written : List Written := []
  created : List Uuid := []

def Shared.write (w : Shared) (db : Db) (entry : Written) : Shared :=
  { w with db := db, written := w.written ++ [entry] }

/-- What the environment decides at a step: the next event of the reply, its end, or an
exception. -/
inductive Choice where
  | go (now : Timestamp)
  | event (ev : StreamEvent Text)
  | fails

section

variable (env : Env)

/-- The end of the reply. -/
def finish (asked : Asked) : TaskPc :=
  let title := clean asked.parts.flatten
  if title = [] then .ended else .writing asked title

/-- `_generate_title`, one statement.  An exception is only logged. -/
def stepTask (w : Shared) (id : Uuid) : TaskPc → Choice → Option (Shared × TaskPc)
  | .ended, _ => none
  | _, .fails => some (w, .ended)
  | .loading, .go _ =>
    match w.db.conversations.selectOne fun c => c.id = id with
    | some conv =>
      if conv.title.isSome then some (w, .ended) else some (w, .readingUser conv.modelAlias)
    | none => some (w, .ended)
  | .readingUser modelAlias, .go _ =>
    some (w, .readingAssistant modelAlias (firstOfRole env.localOffset w.db id .user))
  | .readingAssistant modelAlias userMsg, .go _ =>
    match userMsg, firstOfRole env.localOffset w.db id .assistant with
    | some userMsg, some assistantMsg =>
      match params env modelAlias with
      | some resolved =>
        let prompt := titlePrompt userMsg.content assistantMsg.content
        some (w, .streaming { model := resolved.model, prompt := prompt })
      | none => some (w, .ended)
    | _, _ => some (w, .ended)
  | .streaming _, .event (.error _ _) => some (w, .ended)
  | .streaming asked, .event ev =>
    some (w, .streaming { asked with events := asked.events ++ [ev] })
  | .streaming asked, .go _ => some (w, finish asked)
  | .writing asked title, .go now =>
    match w.db.conversations.selectOne fun c => c.id = id && c.title.isNone with
    | some _ =>
      some (w.write (setTitleIfNull w.db id title now)
        { conversationId := id, title := title, origin := .generated asked }, .ended)
    | none => some ({ w with db := setTitleIfNull w.db id title now }, .ended)
  | _, _ => none

/-- `ConversationService.rename`, one transaction. -/
def stepRename (w : Shared) (userId id : Uuid) (title : Text) :
    RenamePc → Choice → Option (Shared × RenamePc)
  | .ended, _ => none
  | _, .fails => some (w, .ended)
  | .loading, .go _ =>
    match getOwnedConversation w.db userId id with
    | some conv => some (w, .writing conv)
    | none => some (w, .ended)
  | .writing conv, .go now =>
    if conv.title = some title then some (w, .ended)
    else
      match w.db.conversations.selectOne fun c => c.id = conv.id with
      | some _ =>
        some (w.write (w.db.updateConversation conv.id (some title) now)
          { conversationId := conv.id, title := title, origin := .user }, .ended)
      | none => some (w, .ended)
  | _, _ => none

/-- `ConversationService.delete`, one transaction. -/
def stepDelete (w : Shared) (userId id : Uuid) (loaded : Option ConversationRow) :
    Choice → Option (Shared × Option ConversationRow × Bool)
  | .fails => some (w, loaded, true)
  | .go _ =>
    match loaded with
    | none =>
      match getOwnedConversation w.db userId id with
      | some conv => some (w, some conv, false)
      | none => some (w, none, true)
    | some conv => some ({ w with db := w.db.deleteConversation conv.id }, some conv, true)
  | _ => none

def Party.step (w : Shared) : Party → Choice → Option (Shared × Party)
  | .task id pc, c => (stepTask env w id pc c).map fun r => (r.1, .task id r.2)
  | .rename userId id title pc, c =>
    (stepRename w userId id title pc c).map fun r => (r.1, .rename userId id title r.2)
  | .delete userId id loaded ended, c =>
    if ended then none
    else (stepDelete w userId id loaded c).map fun r => (r.1, .delete userId id r.2.1 r.2.2)

abbrev Sys : Type := Par Shared Party

inductive Label where
  /-- `ConversationService.create`. -/
  | create (conv : ConversationRow)
  /-- A turn of the chat adds a message. -/
  | addMessage (row : MessageRow)
  | deliver (conversationId : Uuid)
  | rename (userId conversationId : Uuid) (title : Text)
  | delete (userId conversationId : Uuid)
  | act (i : Nat) (c : Choice)

/-- A new conversation; `new_id` draws no id twice. -/
def Shared.create (w : Shared) (conv : ConversationRow) : Option Shared :=
  if conv.id ∈ w.created then none
  else
    (w.db.insertConversation? conv).map fun db =>
      { db := db
        created := conv.id :: w.created
        written := w.written ++ conv.title.toList.map fun title =>
          { conversationId := conv.id, title := title, origin := .user } }

def Sys.step (s : Sys) : Label → Option Sys
  | .create conv => (s.shared.create conv).map fun w => { s with shared := w }
  | .addMessage row =>
    (s.shared.db.insertMessage? row).map fun db => { s with shared := { s.shared with db := db } }
  | .deliver id => some (s.spawn (.task id .loading))
  | .rename userId id title => some (s.spawn (.rename userId id title .loading))
  | .delete userId id => some (s.spawn (.delete userId id none false))
  | .act i c => s.act (Party.step env) i c

end

def start : Sys := ⟨{}, []⟩

/-! ## 3. What is kept -/

namespace Shared

variable (w : Shared)

/-- The titles of a conversation, in the order in which they were written. -/
def entries (id : Uuid) : List Written := w.written.filter fun e => e.conversationId = id

/-- The conversation was deleted. -/
def Gone (id : Uuid) : Prop := ∀ c ∈ w.db.conversations.rows, c.id ≠ id

/-- The conversation has a message of this role and content, or had it before it was deleted. -/
def Said (id : Uuid) (role : Role) (content : Text) : Prop :=
  id ∈ w.created ∧
    ((∃ m ∈ w.db.messages.rows, m.conversationId = id ∧ m.role = role ∧ m.content = content) ∨
      w.Gone id)

/-- The provider was asked about messages of the conversation, and no error has come. -/
def Heard (id : Uuid) (asked : Asked) : Prop :=
  (∃ user assistant, asked.prompt = titlePrompt user assistant ∧ w.Said id .user user ∧
    w.Said id .assistant assistant) ∧
  ∀ ev ∈ asked.events, ∀ code message, ev ≠ .error code message

/-- A title comes from the user, or from a reply. -/
def Genuine (e : Written) : Prop :=
  ∀ asked, e.origin = .generated asked →
    w.Heard e.conversationId asked ∧ e.title = clean asked.parts.flatten ∧ e.title ≠ []

structure Ok : Prop where
  title : ∀ c ∈ w.db.conversations.rows, c.title = (w.entries c.id).getLast?.map Written.title
  once : ∀ id, ∀ e ∈ (w.entries id).tail, e.origin = .user
  genuine : ∀ e ∈ w.written, w.Genuine e
  created : ∀ c ∈ w.db.conversations.rows, c.id ∈ w.created
  writtenCreated : ∀ e ∈ w.written, e.conversationId ∈ w.created

end Shared

/-- What the task knows at its place. -/
def Party.Knows (w : Shared) : Party → Prop
  | .task id (.readingAssistant _ (some userMsg)) => w.Said id .user userMsg.content
  | .task id (.streaming asked) => w.Heard id asked
  | .task id (.writing asked title) =>
    w.Heard id asked ∧ title = clean asked.parts.flatten ∧ title ≠ []
  | _ => True

/-- What a step leaves to the tasks: a message goes with its conversation only, and a deleted
conversation does not come back. -/
structure Keeps (w w' : Shared) : Prop where
  created : ∀ id ∈ w.created, id ∈ w'.created
  gone : ∀ id ∈ w.created, w.Gone id → w'.Gone id
  messages : ∀ m ∈ w.db.messages.rows, m ∈ w'.db.messages.rows ∨ w'.Gone m.conversationId

section Stable

variable {w w' : Shared} {id : Uuid} {role : Role} {content : Text} {asked : Asked}

theorem Keeps.refl : Keeps w w := ⟨fun _ h => h, fun _ _ h => h, fun _ h => .inl h⟩

variable (h : Keeps w w')
include h

theorem Keeps.said (hsaid : w.Said id role content) : w'.Said id role content := by
  obtain ⟨hcreated, ⟨m, hm, rfl, hmatch⟩ | hgone⟩ := hsaid
  · refine ⟨h.created _ hcreated, ?_⟩
    exact (h.messages m hm).imp (fun hm' => ⟨m, hm', rfl, hmatch⟩) fun hgone => hgone
  · exact ⟨h.created _ hcreated, .inr (h.gone id hcreated hgone)⟩

theorem Keeps.heard (hheard : w.Heard id asked) : w'.Heard id asked := by
  obtain ⟨⟨user, assistant, hprompt, huser, hassistant⟩, hevents⟩ := hheard
  exact ⟨⟨user, assistant, hprompt, h.said huser, h.said hassistant⟩, hevents⟩

theorem Keeps.genuine {e : Written} (he : w.Genuine e) : w'.Genuine e :=
  fun asked horigin => (he asked horigin).imp_left h.heard

theorem Keeps.knows {p : Party} (hknows : p.Knows w) : p.Knows w' := by
  cases p with
  | task id pc =>
    cases pc with
    | readingAssistant modelAlias userMsg =>
      cases userMsg with
      | none => trivial
      | some userMsg => exact h.said hknows
    | streaming asked => exact h.heard hknows
    | writing asked title => exact ⟨h.heard hknows.1, hknows.2⟩
    | _ => trivial
  | _ => trivial

end Stable

/-! ## 4. The statements -/

section Statements

variable {w w' : Shared} {id : Uuid} {title : Text} {now : Timestamp} {conv : ConversationRow}
  {db : Db}

theorem entries_append {e : Written} {id : Uuid} :
    (w.write db e).entries id = w.entries id ++ if e.conversationId = id then [e] else [] := by
  by_cases hid : e.conversationId = id <;>
    simp [Shared.entries, Shared.write, List.filter_append, hid]

/-- What is appended stands in the tail, unless there was nothing before it. -/
theorem mem_tail_append {α : Type*} {l l' : List α} {x : α} (h : x ∈ (l ++ l').tail) :
    x ∈ l.tail ∨ x ∈ l' ∧ (l = [] → x ∈ l'.tail) := by
  cases l with
  | nil => exact .inr ⟨List.mem_of_mem_tail h, fun _ => h⟩
  | cons a l =>
    rcases List.mem_append.mp h with hl | hl'
    · exact .inl hl
    · exact .inr ⟨hl', fun hnil => absurd hnil (by simp)⟩

theorem mem_updateConversation {c : ConversationRow} {title : Option Text}
    (hc : c ∈ (w.db.updateConversation id title now).conversations.rows) :
    ∃ old ∈ w.db.conversations.rows, old.id = c.id ∧
      c.title = if old.id = id then title else old.title := by
  obtain ⟨old, hold, rfl⟩ := List.mem_map.mp hc
  refine ⟨old, hold, ?_, ?_⟩ <;> by_cases hid : old.id = id <;> simp [hid]

/-- **A title is written**: by the user, or where there is none. -/
theorem write_ok (h : w.Ok) (now : Timestamp) (hconv : conv ∈ w.db.conversations.rows) {e : Written}
    (hid : e.conversationId = conv.id) (hfirst : e.origin ≠ .user → conv.title = none)
    (hgenuine : w.Genuine e) :
    let after := w.write (w.db.updateConversation conv.id (some e.title) now) e
    after.Ok ∧ Keeps w after := by
  intro after
  have hgone : ∀ id, w.Gone id → after.Gone id := by
    intro id hgone c hc
    obtain ⟨old, hold, hsame, -⟩ := mem_updateConversation hc
    exact hsame ▸ hgone old hold
  have hkeeps : Keeps w after := ⟨fun _ h => h, fun id _ => hgone id, fun _ hm => .inl hm⟩
  refine ⟨⟨fun c hc => ?_, fun id e' he' => ?_, fun e' he' => ?_, fun c hc => ?_, fun e' he' => ?_⟩,
    hkeeps⟩
  · obtain ⟨old, hold, hsame, htitle⟩ := mem_updateConversation hc
    rw [entries_append, hid, ← hsame, htitle]
    by_cases hown : old.id = conv.id
    · simp [hown]
    · rw [if_neg hown, if_neg (Ne.symm hown), List.append_nil]
      exact h.title old hold
  · rw [entries_append] at he'
    rcases mem_tail_append he' with hold | ⟨hnew, htail⟩
    · exact h.once id e' hold
    · by_cases hcase : e.conversationId = id
      · rw [if_pos hcase] at hnew htail
        obtain rfl := List.mem_singleton.mp hnew
        by_contra horigin
        -- a generated title meets no other one
        have hnone := h.title conv hconv
        rw [hfirst horigin, ← hid, hcase] at hnone
        have hempty : w.entries id = [] := by
          cases hlast : (w.entries id).getLast? with
          | none => exact List.getLast?_eq_none_iff.mp hlast
          | some last => simp [hlast] at hnone
        exact absurd (htail hempty) (by simp)
      · simp [if_neg hcase] at hnew
  · rcases List.mem_append.mp he' with hold | hnew
    · exact hkeeps.genuine (h.genuine e' hold)
    · obtain rfl := List.mem_singleton.mp hnew
      exact hkeeps.genuine hgenuine
  · obtain ⟨old, hold, hsame, -⟩ := mem_updateConversation hc
    exact hsame ▸ h.created old hold
  · rcases List.mem_append.mp he' with hold | hnew
    · exact h.writtenCreated e' hold
    · obtain rfl := List.mem_singleton.mp hnew
      exact hid ▸ h.created conv hconv

theorem delete_ok (h : w.Ok) :
    ({ w with db := w.db.deleteConversation id } : Shared).Ok ∧
      Keeps w { w with db := w.db.deleteConversation id } := by
  have hkeeps : Keeps w { w with db := w.db.deleteConversation id } := by
    refine ⟨fun _ h => h, fun id' _ hgone c hc => hgone c (List.mem_of_mem_filter hc),
      fun m hm => ?_⟩
    by_cases hid : m.conversationId = id
    · refine .inr fun c hc => ?_
      rw [hid]
      simpa using (List.mem_filter.mp hc).2
    · exact .inl (List.mem_filter.mpr ⟨hm, by simpa using hid⟩)
  exact ⟨⟨fun c hc => h.title c (List.mem_of_mem_filter hc), h.once,
    fun e he => hkeeps.genuine (h.genuine e he),
    fun c hc => h.created c (List.mem_of_mem_filter hc), h.writtenCreated⟩, hkeeps⟩

theorem create_ok (h : w.Ok) (hcreate : w.create conv = some w') : w'.Ok ∧ Keeps w w' := by
  unfold Shared.create at hcreate
  split at hcreate
  · cases hcreate
  · rename_i hnew
    obtain ⟨db, hinsert, rfl⟩ := Option.map_eq_some_iff.mp hcreate
    obtain ⟨htable, hmessages, -⟩ := insertConversation_tables hinsert
    have hmem : ∀ {c}, c ∈ db.conversations.rows → c = conv ∨ c ∈ w.db.conversations.rows :=
      fun hc => (Table.mem_insert htable).mp hc
    set first : List Written := conv.title.toList.map fun title =>
      { conversationId := conv.id, title := title, origin := .user } with hfirst
    set after : Shared :=
      { db := db, created := conv.id :: w.created, written := w.written ++ first } with hafter
    have hkeeps : Keeps w after := by
      refine ⟨fun _ h => List.mem_cons_of_mem _ h, fun id hid hgone c hc => ?_, fun m hm => ?_⟩
      · rcases hmem hc with rfl | hold
        · rintro rfl
          exact hnew hid
        · exact hgone c hold
      · exact .inl (hmessages ▸ hm)
    have huser : ∀ e ∈ first, e.conversationId = conv.id ∧ e.origin = .user := by
      intro e he
      obtain ⟨title, -, rfl⟩ := List.mem_map.mp he
      exact ⟨rfl, rfl⟩
    have hnone : w.entries conv.id = [] := by
      refine List.filter_eq_nil_iff.mpr fun e he => ?_
      simpa using fun hid : e.conversationId = conv.id => hnew (hid ▸ h.writtenCreated e he)
    have hentries : ∀ id, after.entries id =
        w.entries id ++ first.filter fun e => e.conversationId = id :=
      fun id => List.filter_append _ _
    refine ⟨⟨fun c hc => ?_, fun id e he => ?_, fun e he => ?_, fun c hc => ?_, fun e he => ?_⟩,
      hkeeps⟩
    · rw [hentries]
      rcases hmem hc with rfl | hold
      · rw [hnone, List.nil_append]
        cases htitle : c.title <;> simp [hfirst, htitle]
      · have hne : conv.id ≠ c.id := fun hid => hnew (hid ▸ h.created c hold)
        have hempty : (first.filter fun e => e.conversationId = c.id) = [] := by
          refine List.filter_eq_nil_iff.mpr fun e he => ?_
          simpa [(huser e he).1] using hne
        rw [hempty, List.append_nil]
        exact h.title c hold
    · rw [hentries] at he
      rcases mem_tail_append he with hold | ⟨hfirst', -⟩
      · exact h.once id e hold
      · exact (huser e (List.mem_of_mem_filter hfirst')).2
    · rcases List.mem_append.mp he with hold | hfirst'
      · exact hkeeps.genuine (h.genuine e hold)
      · intro asked horigin
        rw [(huser e hfirst').2] at horigin
        cases horigin
    · rcases hmem hc with rfl | hold
      · exact List.mem_cons_self
      · exact List.mem_cons_of_mem _ (h.created c hold)
    · rcases List.mem_append.mp he with hold | hfirst'
      · exact List.mem_cons_of_mem _ (h.writtenCreated e hold)
      · exact (huser e hfirst').1 ▸ List.mem_cons_self

theorem addMessage_ok (h : w.Ok) {row : MessageRow} (hinsert : w.db.insertMessage? row = some db) :
    ({ w with db := db } : Shared).Ok ∧ Keeps w { w with db := db } := by
  obtain ⟨htable, hconversations, -⟩ := insertMessage_tables hinsert
  have hkeeps : Keeps w { w with db := db } := by
    refine ⟨fun _ h => h, fun id _ hgone c hc => hgone c (hconversations ▸ hc), fun m hm => ?_⟩
    exact .inl ((Table.mem_insert htable).mpr (.inr hm))
  exact ⟨⟨fun c hc => h.title c (hconversations ▸ hc), h.once,
    fun e he => hkeeps.genuine (h.genuine e he), fun c hc => h.created c (hconversations ▸ hc),
    h.writtenCreated⟩, hkeeps⟩

end Statements

/-! ## 5. The steps -/

section Steps

variable {env : Env} {w : Shared} {id : Uuid} {c : Choice}

/-- What a party's step must come to. -/
def Good (w : Shared) (r : Shared × Party) : Prop := r.1.Ok ∧ Keeps w r.1 ∧ r.2.Knows r.1

/-- A query changes nothing. -/
theorem Good.query (h : w.Ok) {p : Party} (hknows : p.Knows w) : Good w (w, p) :=
  ⟨h, .refl, hknows⟩

theorem said_of_firstOfRole (h : w.Ok) {role : Role} {m : MessageRow}
    (hfirst : firstOfRole env.localOffset w.db id role = some m) : w.Said id role m.content := by
  have hselect := List.mem_of_getLast? hfirst
  obtain ⟨hm, hmatch⟩ := Table.mem_select.mp ((List.mem_insertionSort _).mp hselect)
  obtain ⟨hid, hrole⟩ := Bool.and_eq_true_iff.mp hmatch
  have hid : m.conversationId = id := of_decide_eq_true hid
  obtain ⟨conv, hconv, hsame⟩ := w.db.messages_fk m hm
  exact ⟨hid ▸ hsame ▸ h.created conv hconv, .inl ⟨m, hm, hid, of_decide_eq_true hrole, rfl⟩⟩

/-- The end of a reply without an error. -/
theorem finish_knows {asked : Asked} (hheard : w.Heard id asked) :
    (Party.task id (finish asked)).Knows w := by
  by_cases hblank : clean asked.parts.flatten = []
  · rw [show finish asked = .ended from if_pos hblank]
    trivial
  · rw [show finish asked = .writing asked (clean asked.parts.flatten) from if_neg hblank]
    exact ⟨hheard, rfl, hblank⟩

/-- The next event of the reply. -/
theorem heard_append {asked : Asked} {ev : StreamEvent Text} (hheard : w.Heard id asked)
    (hev : ∀ code message, ev ≠ .error code message) :
    w.Heard id { asked with events := asked.events ++ [ev] } := by
  refine ⟨hheard.1, fun ev' hev' => ?_⟩
  rcases List.mem_append.mp hev' with hold | hnew
  · exact hheard.2 ev' hold
  · exact List.mem_singleton.mp hnew ▸ hev

theorem setTitleIfNull_none {title : Text} {now : Timestamp}
    (h : (w.db.conversations.selectOne fun c => c.id = id && c.title.isNone) = none) :
    setTitleIfNull w.db id title now = w.db := by
  simp only [setTitleIfNull, h]

/-- **The task writes where there is no title.** -/
theorem writing_good (h : w.Ok) {asked : Asked} {title : Text} {now : Timestamp}
    (hknows : (Party.task id (.writing asked title)).Knows w) {conv : ConversationRow}
    (hfound : (w.db.conversations.selectOne fun c => c.id = id && c.title.isNone) = some conv) :
    Good w (w.write (setTitleIfNull w.db id title now)
      { conversationId := id, title := title, origin := .generated asked }, .task id .ended) := by
  obtain ⟨hconv, hmatch⟩ := Table.selectOne_some hfound
  obtain ⟨hid, hnull⟩ := Bool.and_eq_true_iff.mp hmatch
  have hid : conv.id = id := of_decide_eq_true hid
  obtain ⟨hheard, htitle, hne⟩ := hknows
  have hwrite := write_ok
    (e := { conversationId := id, title := title, origin := .generated asked })
    h now hconv hid.symm (fun _ => Option.isNone_iff_eq_none.mp hnull)
    (fun asked' horigin => by
      obtain rfl := Origin.generated.inj horigin
      exact ⟨hheard, htitle, hne⟩)
  rw [hid] at hwrite
  rw [setTitleIfNull, hfound]
  exact ⟨hwrite.1, hwrite.2, trivial⟩

theorem stepTask_good (h : w.Ok) {pc : TaskPc} (hknows : (Party.task id pc).Knows w)
    {r : Shared × TaskPc} (hstep : stepTask env w id pc c = some r) :
    Good w (r.1, .task id r.2) := by
  unfold stepTask at hstep
  split at hstep
  · cases hstep
  · cases hstep
    exact .query h trivial
  · split at hstep
    · split at hstep <;> cases hstep <;> exact .query h trivial
    · cases hstep
      exact .query h trivial
  · cases hstep
    cases hfirst : firstOfRole env.localOffset w.db id .user with
    | none => exact .query h trivial
    | some m => exact .query h (said_of_firstOfRole h hfirst)
  · split at hstep
    · rename_i userMsg assistantMsg hassistant
      split at hstep <;> cases hstep
      · refine .query h ⟨⟨userMsg.content, assistantMsg.content, rfl, hknows, ?_⟩, by simp⟩
        exact said_of_firstOfRole h hassistant
      · exact .query h trivial
    · cases hstep
      exact .query h trivial
  · cases hstep
    exact .query h trivial
  · cases hstep
    rename_i hev
    exact .query h (heard_append hknows hev)
  · cases hstep
    exact .query h (finish_knows hknows)
  · split at hstep <;> cases hstep
    · rename_i hfound
      exact writing_good h hknows hfound
    · rename_i hnone
      rw [setTitleIfNull_none hnone]
      exact .query h trivial
  · cases hstep

theorem stepRename_good (h : w.Ok) {userId : Uuid} {title : Text} {pc : RenamePc}
    {r : Shared × RenamePc} (hstep : stepRename w userId id title pc c = some r) :
    Good w (r.1, .rename userId id title r.2) := by
  unfold stepRename at hstep
  split at hstep
  · cases hstep
  · cases hstep
    exact .query h trivial
  · split at hstep <;> cases hstep <;> exact .query h trivial
  · split at hstep
    · cases hstep
      exact .query h trivial
    · split at hstep <;> cases hstep
      · rename_i conv now _ _ row hfound
        obtain ⟨hrow, hid⟩ := Table.selectOne_some hfound
        have hid : row.id = conv.id := of_decide_eq_true hid
        have hwrite := write_ok
          (e := { conversationId := conv.id, title := title, origin := .user })
          h now hrow hid.symm (fun hne => absurd rfl hne)
          (fun asked horigin => by cases horigin)
        rw [hid] at hwrite
        exact ⟨hwrite.1, hwrite.2, trivial⟩
      · exact .query h trivial
  · cases hstep

theorem stepDelete_good (h : w.Ok) {userId : Uuid} {loaded : Option ConversationRow}
    {r : Shared × Option ConversationRow × Bool}
    (hstep : stepDelete w userId id loaded c = some r) :
    Good w (r.1, .delete userId id r.2.1 r.2.2) := by
  unfold stepDelete at hstep
  split at hstep
  · cases hstep
    exact .query h trivial
  · split at hstep
    · split at hstep <;> cases hstep <;> exact .query h trivial
    · cases hstep
      exact ⟨(delete_ok h).1, (delete_ok h).2, trivial⟩
  · cases hstep

theorem party_good {p q : Party} {w' : Shared} (h : w.Ok) (hknows : p.Knows w)
    (hstep : p.step env w c = some (w', q)) : w'.Ok ∧ Keeps w w' ∧ q.Knows w' := by
  cases p with
  | task id pc =>
    obtain ⟨r, hr, heq⟩ := Option.map_eq_some_iff.mp hstep
    obtain ⟨rfl, rfl⟩ := Prod.mk.inj heq
    exact stepTask_good h hknows hr
  | rename userId id title pc =>
    obtain ⟨r, hr, heq⟩ := Option.map_eq_some_iff.mp hstep
    obtain ⟨rfl, rfl⟩ := Prod.mk.inj heq
    exact stepRename_good h hr
  | delete userId id loaded ended =>
    simp only [Party.step] at hstep
    split at hstep
    · cases hstep
    · obtain ⟨r, hr, heq⟩ := Option.map_eq_some_iff.mp hstep
      obtain ⟨rfl, rfl⟩ := Prod.mk.inj heq
      exact stepDelete_good h hr

end Steps

/-- The invariant of the system. -/
abbrev Sys.Ok (s : Sys) : Prop := s.Holds Shared.Ok fun w p => p.Knows w

theorem step_ok {env : Env} {s s' : Sys} {l : Label} (h : s.Ok)
    (hstep : s.step env l = some s') : s'.Ok := by
  cases l with
  | create conv =>
    obtain ⟨w, hcreate, rfl⟩ := Option.map_eq_some_iff.mp hstep
    obtain ⟨hok, hkeeps⟩ := create_ok h.shared hcreate
    exact h.env hok fun p => hkeeps.knows
  | addMessage row =>
    obtain ⟨db, hinsert, rfl⟩ := Option.map_eq_some_iff.mp hstep
    obtain ⟨hok, hkeeps⟩ := addMessage_ok h.shared hinsert
    exact h.env hok fun p => hkeeps.knows
  | deliver id =>
    cases hstep
    exact h.spawn trivial
  | rename userId id title =>
    cases hstep
    exact h.spawn trivial
  | delete userId id =>
    cases hstep
    exact h.spawn trivial
  | act i c =>
    obtain ⟨p, w, q, hp, hparty, rfl⟩ := Par.act_eq_some.mp hstep
    obtain ⟨hok, hkeeps, hknows⟩ :=
      party_good h.shared (h.parties p (List.mem_of_getElem? hp)) hparty
    exact h.set i hok hknows fun r => hkeeps.knows

theorem start_ok : start.Ok := by
  refine Par.holds_nil ?_
  constructor <;> simp [Db.empty, Table.empty, Shared.entries]

theorem run_ok {env : Env} {ls : List Label} {s : Sys}
    (hrun : run (Sys.step env) start ls = some s) : s.Ok :=
  run_invariant_of_step (fun _ _ _ => step_ok) start_ok hrun

/-! ## 6. Every run -/

/-- **The title of a conversation.** -/
theorem titles (env : Env) {ls : List Label} {s : Sys}
    (hrun : run (Sys.step env) start ls = some s) :
    -- it is the one that was written last
    (∀ c ∈ s.shared.db.conversations.rows,
      c.title = (s.shared.entries c.id).getLast?.map Written.title) ∧
    -- a generated one was the first of all, so there is one at most, and it has replaced none
    (∀ id front e back asked, s.shared.entries id = front ++ e :: back →
      e.origin = .generated asked → front = []) ∧
    -- it is what `_clean` makes of a whole reply without an error, to a prompt of two messages of
    -- the conversation
    (∀ e ∈ s.shared.written, ∀ asked, e.origin = .generated asked →
      s.shared.Heard e.conversationId asked ∧ e.title = clean asked.parts.flatten ∧
        e.title ≠ [] ∧ e.title.length ≤ titleMaxChars ∧ ∀ c ∈ e.title, isLineBreak c = false) := by
  have hs : s.shared.Ok := (run_ok hrun).shared
  refine ⟨hs.title, fun id front e back asked hentries horigin => ?_, fun e he asked horigin => ?_⟩
  · cases front with
    | nil => rfl
    | cons first front =>
      have htail : e ∈ (s.shared.entries id).tail := by simp [hentries]
      rw [hs.once id e htail] at horigin
      cases horigin
  · obtain ⟨hheard, htitle, hne⟩ := hs.genuine e he asked horigin
    obtain ⟨-, hlength, hlines, -⟩ := clean_spec asked.parts.flatten
    exact ⟨hheard, htitle, hne, htitle ▸ hlength, htitle ▸ hlines⟩

/-! ### Two deliveries and a rename -/

def sampleConversation : ConversationRow where
  id := 1
  userId := 7
  modelAlias := "default"
  createdAt := Upload.sampleInstant
  updatedAt := Upload.sampleInstant

def sampleMessage (id : Uuid) (role : Role) : MessageRow where
  id := id
  conversationId := 1
  role := role
  content := "hi".toList
  createdAt := Upload.sampleInstant

def titleEnv : Env :=
  { Upload.sampleEnv with aliases := fun _ => some { model := "m" } }

/-- The party goes on. -/
def goes (i : Nat) : Label := .act i (.go Upload.sampleInstant)

/-- Both tasks find no title.  The first one writes, the user renames, the second one comes too
late. -/
def twiceRun : List Label :=
  [.create sampleConversation, .addMessage (sampleMessage 2 .user),
    .addMessage (sampleMessage 3 .assistant), .deliver 1, .deliver 1, .rename 7 1 "mine".toList] ++
  [0, 1, 0, 1, 0, 1].map goes ++
  [.act 0 (.event (.textDelta " 「good\nday".toList)), .act 1 (.event (.textDelta "late".toList)),
    goes 0, goes 1, goes 0, goes 2, goes 2, goes 1]

theorem titles_twice :
    ∃ s, run (Sys.step titleEnv) start twiceRun = some s ∧
      (s.shared.entries 1).map Written.title = ["good".toList, "mine".toList] ∧
      ∀ c ∈ s.shared.db.conversations.rows, c.id = 1 → c.title = some "mine".toList := by
  have hend : (run (Sys.step titleEnv) start twiceRun).map
      (fun s => (s.shared.entries 1).map Written.title) =
        some ["good".toList, "mine".toList] := by decide
  obtain ⟨s, hs, hentries⟩ := Option.map_eq_some_iff.mp hend
  refine ⟨s, hs, hentries, fun c hc hid => ?_⟩
  rw [(titles titleEnv hs).1 c hc, hid, ← List.getLast?_map, hentries]
  rfl

end AtlasKnowledge.Services.Titles
