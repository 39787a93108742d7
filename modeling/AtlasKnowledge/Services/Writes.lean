/-
# What a statement does to the views

For every statement of the services: the view of the owner afterwards, as a function of the
owner's view before, and that every other user's view is what it was.  The foreign keys are what
makes this true of new rows: nothing can refer to a row that is not there yet.
-/
import AtlasKnowledge.Services.View

namespace AtlasKnowledge.Services

open Pagination (Timestamp)
open Pipeline (Stage DocStatus)

variable {db db' : Db} {u v id : Uuid}

/-! ## 1. Views of unchanged tables -/

theorem View.eq_of {a b : View} (conversations : a.conversations = b.conversations)
    (messages : a.messages = b.messages) (citations : a.citations = b.citations)
    (documents : a.documents = b.documents) (jobs : a.jobs = b.jobs)
    (sources : a.sources = b.sources) : a = b := by
  obtain ⟨⟩ := a
  obtain ⟨⟩ := b
  simp_all

/-- Messages and citations as they were, of conversations that are whose they were. -/
theorem view_messages_congr (hmessages : db'.messages = db.messages)
    (howns : ∀ m ∈ db.messages.rows,
      db'.ownsConversation v m.conversationId = db.ownsConversation v m.conversationId) :
    (db'.view v).messages = (db.view v).messages ∧
      ∀ id, db'.ownsMessage v id = db.ownsMessage v id := by
  refine ⟨?_, ?_⟩
  · simp only [Db.view, hmessages]
    exact List.filter_congr howns
  · intro id
    rw [Bool.eq_iff_iff, ownsMessage_iff, ownsMessage_iff, hmessages]
    constructor
    · rintro ⟨m, hm, hv, hid⟩
      exact ⟨m, hm, howns m hm ▸ hv, hid⟩
    · rintro ⟨m, hm, hv, hid⟩
      exact ⟨m, hm, (howns m hm).symm ▸ hv, hid⟩

theorem view_citations_congr (hcitations : db'.citations = db.citations)
    (howns : ∀ c ∈ db.citations.rows,
      db'.ownsMessage v c.messageId = db.ownsMessage v c.messageId) :
    (db'.view v).citations = (db.view v).citations := by
  simp only [Db.view, hcitations]
  exact List.filter_congr howns

theorem view_jobs_congr (hjobs : db'.jobs = db.jobs)
    (howns : ∀ j ∈ db.jobs.rows,
      db'.ownsDocument v j.documentId = db.ownsDocument v j.documentId) :
    (db'.view v).jobs = (db.view v).jobs := by
  simp only [Db.view, hjobs]
  exact List.filter_congr howns

/-! ## 2. Conversations -/

section InsertConversation

variable {row : ConversationRow}

theorem insertConversation_tables (h : db.insertConversation? row = some db') :
    db.conversations.insert? row = some db'.conversations ∧ db'.messages = db.messages ∧
      db'.citations = db.citations ∧ db'.documents = db.documents ∧ db'.jobs = db.jobs ∧
      db'.sources = db.sources := by
  unfold Db.insertConversation? at h
  split at h
  · exact nomatch h
  · rename_i conversations hinsert
    obtain rfl := Option.some.inj h
    exact ⟨hinsert, rfl, rfl, rfl, rfl, rfl⟩

/-- A new conversation of a new id is inserted. -/
theorem insertConversation_isSome (hfree : db.Unused row.id) :
    ∃ db', db.insertConversation? row = some db' := by
  obtain ⟨conversations, hinsert⟩ := Table.insert_of_free hfree.1
  unfold Db.insertConversation?
  split
  · rename_i hnone
    rw [hinsert] at hnone
    exact nomatch hnone
  · exact ⟨_, rfl⟩

/-- No message is in a conversation that was not there. -/
theorem insertConversation_owns (h : db.insertConversation? row = some db')
    (hfree : db.Unused row.id) :
    ∀ m ∈ db.messages.rows,
      db'.ownsConversation v m.conversationId = db.ownsConversation v m.conversationId := by
  intro m hm
  obtain ⟨c, hc, hid⟩ := db.messages_fk m hm
  have hne : m.conversationId ≠ row.id := hid ▸ hfree.1 c hc
  rw [Bool.eq_iff_iff, ownsConversation_iff, ownsConversation_iff]
  constructor
  · rintro ⟨x, hx, hv, hxid⟩
    rcases (Table.mem_insert (insertConversation_tables h).1).mp hx with rfl | hold
    · exact absurd hxid.symm hne
    · exact ⟨x, hold, hv, hxid⟩
  · rintro ⟨x, hx, hv, hxid⟩
    exact ⟨x, (Table.mem_insert (insertConversation_tables h).1).mpr (.inr hx), hv, hxid⟩

theorem view_insertConversation (h : db.insertConversation? row = some db')
    (hfree : db.Unused row.id) :
    db'.view v = { db.view v with
      conversations := if row.userId = v then
        Table.place ConversationRow.id row (db.view v).conversations
      else (db.view v).conversations } := by
  obtain ⟨hinsert, hmessages, hcitations, hdocuments, hjobs, hsources⟩ :=
    insertConversation_tables h
  obtain ⟨hview, howns⟩ := view_messages_congr hmessages (insertConversation_owns (v := v) h hfree)
  refine View.eq_of ?_ hview (view_citations_congr hcitations fun c _ => howns c.messageId) ?_ ?_ ?_
  · simp only [Db.view, Table.select_insert hinsert, decide_eq_true_eq]
  · simp only [Db.view, hdocuments]
  · refine view_jobs_congr hjobs fun j _ => ?_
    simp only [Db.ownsDocument, hdocuments]
  · simp only [Db.view, hsources]

end InsertConversation

section UpdateConversation

variable {title : Option Text} {updatedAt : Timestamp}

theorem view_updateConversation :
    (db.updateConversation id title updatedAt).view v = { db.view v with
      conversations := (db.view v).conversations.map fun c =>
        if c.id = id then { c with title := title, updatedAt := updatedAt } else c } := by
  have howns : ∀ x, (db.updateConversation id title updatedAt).ownsConversation v x =
      db.ownsConversation v x := by
    intro x
    simp only [Db.ownsConversation, Db.updateConversation, Table.update, List.any_map]
    congr 1
    funext c
    simp only [Function.comp_apply]
    split <;> rfl
  obtain ⟨hview, hmessage⟩ := @view_messages_congr db (db.updateConversation id title updatedAt) v
    rfl fun m _ => howns m.conversationId
  refine View.eq_of ?_ hview (view_citations_congr rfl fun c _ => hmessage c.messageId) rfl rfl rfl
  have hkeep : ∀ c : ConversationRow, (fun c : ConversationRow => decide (c.userId = v))
      { c with title := title, updatedAt := updatedAt } = decide (c.userId = v) := fun _ => rfl
  simp only [Db.view, Db.updateConversation]
  refine (Table.select_update hkeep).trans ?_
  simp only [decide_eq_true_eq]

/-- An update of a conversation of somebody else changes nothing. -/
theorem updateConversation_other (hu : db.ownsConversation u id = true) (hne : v ≠ u) :
    (db.updateConversation id title updatedAt).view v = db.view v := by
  rw [view_updateConversation]
  refine View.eq_of ?_ rfl rfl rfl rfl rfl
  refine (List.map_congr_left ?_).trans (List.map_id _)
  intro c hc
  obtain ⟨hmem, hv⟩ := Table.mem_select.mp hc
  have hid : c.id ≠ id := by
    rintro rfl
    have hother := ownsConversation_unique hu hne
    rw [ownsConversation_iff.mpr ⟨c, hmem, of_decide_eq_true hv, rfl⟩] at hother
    exact nomatch hother
  rw [if_neg hid]
  rfl

end UpdateConversation

section DeleteConversation

theorem isOf_iff {messageId : Uuid} : db.isOf id messageId = true ↔
    ∃ m ∈ db.messages.rows, m.id = messageId ∧ m.conversationId = id := by
  simp [Db.isOf, List.any_eq_true]

/-- The messages of a conversation of the user are in the user's view. -/
theorem isOf_view (hu : db.ownsConversation u id = true) (messageId : Uuid) :
    db.isOf id messageId =
      (db.view u).messages.any fun m => m.id = messageId ∧ m.conversationId = id := by
  rw [Bool.eq_iff_iff, isOf_iff, List.any_eq_true]
  constructor
  · rintro ⟨m, hm, hid, hconv⟩
    exact ⟨m, Table.mem_select.mpr ⟨hm, by rw [hconv]; exact hu⟩, decide_eq_true ⟨hid, hconv⟩⟩
  · rintro ⟨m, hm, hboth⟩
    exact ⟨m, (Table.mem_select.mp hm).1, of_decide_eq_true hboth⟩

theorem deleteConversation_owns (x : Uuid) :
    (db.deleteConversation id).ownsConversation v x =
      (db.ownsConversation v x && !decide (x = id)) := by
  rw [Bool.eq_iff_iff, ownsConversation_iff, Bool.and_eq_true, ownsConversation_iff]
  simp only [Db.deleteConversation, Table.delete, List.mem_filter, Bool.not_eq_true',
    decide_eq_false_iff_not]
  constructor
  · rintro ⟨c, ⟨hc, hne⟩, hv, rfl⟩
    exact ⟨⟨c, hc, hv, rfl⟩, hne⟩
  · rintro ⟨⟨c, hc, hv, rfl⟩, hne⟩
    exact ⟨c, ⟨hc, hne⟩, hv, rfl⟩

theorem deleteConversation_ownsMessage {messageId : Uuid} (h : db.isOf id messageId = false) :
    (db.deleteConversation id).ownsMessage v messageId = db.ownsMessage v messageId := by
  have hconv : ∀ m ∈ db.messages.rows, m.id = messageId → m.conversationId ≠ id := by
    rintro m hm hid rfl
    rw [isOf_iff.mpr ⟨m, hm, hid, rfl⟩] at h
    exact nomatch h
  rw [Bool.eq_iff_iff, ownsMessage_iff, ownsMessage_iff]
  simp only [deleteConversation_owns]
  simp only [Db.deleteConversation, Table.delete, List.mem_filter, Bool.and_eq_true,
    Bool.not_eq_true', decide_eq_false_iff_not]
  constructor
  · rintro ⟨m, ⟨hm, -⟩, ⟨hv, -⟩, hid⟩
    exact ⟨m, hm, hv, hid⟩
  · rintro ⟨m, hm, hv, hid⟩
    exact ⟨m, ⟨hm, hconv m hm hid⟩, ⟨hv, hconv m hm hid⟩, hid⟩

theorem view_deleteConversation :
    (db.deleteConversation id).view v = { db.view v with
      conversations := (db.view v).conversations.filter fun c => !decide (c.id = id)
      messages := (db.view v).messages.filter fun m => !decide (m.conversationId = id)
      citations := (db.view v).citations.filter fun c => !db.isOf id c.messageId } := by
  refine View.eq_of ?_ ?_ ?_ rfl rfl rfl
  · exact Table.select_delete
  · have hrows : (db.deleteConversation id).messages.rows =
        db.messages.rows.filter fun m => !decide (m.conversationId = id) := rfl
    simp only [Db.view]
    rw [Table.select_filter, Table.select, hrows, List.filter_filter]
    refine List.filter_congr ?_
    intro m _
    rw [deleteConversation_owns]
    cases db.ownsConversation v m.conversationId <;> simp
  · simp only [Db.view]
    rw [Table.select_filter]
    have hrows : (db.deleteConversation id).citations.rows =
        db.citations.rows.filter fun c => !db.isOf id c.messageId := rfl
    rw [Table.select, hrows, List.filter_filter]
    refine List.filter_congr ?_
    intro c _
    by_cases hof : db.isOf id c.messageId = true
    · simp [hof]
    · rw [deleteConversation_ownsMessage (Bool.not_eq_true _ ▸ hof)]

/-- Deleting a conversation of somebody else takes nothing away. -/
theorem deleteConversation_other (hu : db.ownsConversation u id = true) (hne : v ≠ u) :
    (db.deleteConversation id).view v = db.view v := by
  have hother := ownsConversation_unique hu hne
  rw [view_deleteConversation]
  refine View.eq_of ?_ ?_ ?_ rfl rfl rfl
  · refine List.filter_eq_self.mpr ?_
    intro c hc
    obtain ⟨hmem, hv⟩ := Table.mem_select.mp hc
    rw [Bool.not_eq_true', decide_eq_false_iff_not]
    rintro rfl
    rw [ownsConversation_iff.mpr ⟨c, hmem, of_decide_eq_true hv, rfl⟩] at hother
    exact nomatch hother
  · refine List.filter_eq_self.mpr ?_
    intro m hm
    obtain ⟨-, hv⟩ := Table.mem_select.mp hm
    rw [Bool.not_eq_true', decide_eq_false_iff_not]
    rintro rfl
    rw [hother] at hv
    exact nomatch hv
  · refine List.filter_eq_self.mpr ?_
    intro c hc
    obtain ⟨-, hv⟩ := Table.mem_select.mp hc
    obtain ⟨m, hm, howns, hid⟩ := ownsMessage_iff.mp hv
    rw [Bool.not_eq_true', ← Bool.not_eq_true, isOf_iff]
    rintro ⟨m', hm', hid', rfl⟩
    obtain rfl := Table.eq_of_key hm hm' (hid.trans hid'.symm)
    rw [hother] at howns
    exact nomatch howns

end DeleteConversation

/-! ## 3. Messages -/

section InsertMessage

variable {row : MessageRow}

theorem insertMessage_tables (h : db.insertMessage? row = some db') :
    db.messages.insert? row = some db'.messages ∧ db'.conversations = db.conversations ∧
      db'.citations = db.citations ∧ db'.documents = db.documents ∧ db'.jobs = db.jobs ∧
      db'.sources = db.sources := by
  unfold Db.insertMessage? at h
  split at h
  · split at h
    · exact nomatch h
    · split at h
      · exact nomatch h
      · rename_i messages hinsert
        obtain rfl := Option.some.inj h
        exact ⟨hinsert, rfl, rfl, rfl, rfl, rfl⟩
  · exact nomatch h

/-- Whether a message goes into a conversation of the user shows in the user's view. -/
theorem insertMessage_isSome (hu : db.ownsConversation u row.conversationId = true)
    (hfree : db.Unused row.id) :
    (db.insertMessage? row).isSome = !(row.clientMessageId.isSome &&
      (db.view u).messages.any fun m => m.conversationId = row.conversationId ∧
        m.clientMessageId = row.clientMessageId) := by
  have hfk : ∃ c ∈ db.conversations.rows, c.id = row.conversationId := by
    obtain ⟨c, hc, -, hid⟩ := ownsConversation_iff.mp hu
    exact ⟨c, hc, hid⟩
  have hseen : ((db.view u).messages.any fun m => m.conversationId = row.conversationId ∧
      m.clientMessageId = row.clientMessageId) = true ↔ ∃ m ∈ db.messages.rows,
        m.conversationId = row.conversationId ∧ m.clientMessageId = row.clientMessageId := by
    rw [List.any_eq_true]
    constructor
    · rintro ⟨m, hm, hboth⟩
      exact ⟨m, (Table.mem_select.mp hm).1, of_decide_eq_true hboth⟩
    · rintro ⟨m, hm, hconv, hclient⟩
      exact ⟨m, Table.mem_select.mpr ⟨hm, by rw [hconv]; exact hu⟩,
        decide_eq_true ⟨hconv, hclient⟩⟩
  obtain ⟨messages, hinsert⟩ := Table.insert_of_free hfree.2.1
  rw [Bool.eq_iff_iff, Bool.not_eq_true', ← Bool.not_eq_true, Bool.and_eq_true, hseen]
  rw [Db.insertMessage?, dif_pos hfk]
  split
  · rename_i htaken
    simp [htaken]
  · rename_i hnew
    split
    · rename_i hnone
      rw [hinsert] at hnone
      exact nomatch hnone
    · simp [hnew]

theorem view_insertMessage (h : db.insertMessage? row = some db') (hfree : db.Unused row.id) :
    db'.view v = { db.view v with
      messages := if db.ownsConversation v row.conversationId then
        Table.place MessageRow.id row (db.view v).messages
      else (db.view v).messages } := by
  obtain ⟨hinsert, hconversations, hcitations, hdocuments, hjobs, hsources⟩ :=
    insertMessage_tables h
  have howns : ∀ x, db'.ownsConversation v x = db.ownsConversation v x := by
    intro x
    simp only [Db.ownsConversation, hconversations]
  have hmessage : ∀ c ∈ db.citations.rows,
      db'.ownsMessage v c.messageId = db.ownsMessage v c.messageId := by
    intro c hc
    obtain ⟨m, hm, hid⟩ := db.citations_fk c hc
    have hne : c.messageId ≠ row.id := hid ▸ hfree.2.1 m hm
    rw [Bool.eq_iff_iff, ownsMessage_iff, ownsMessage_iff]
    simp only [howns]
    exact Table.exists_mem_insert hinsert fun hrow => hne hrow.2.symm
  refine View.eq_of ?_ ?_ (view_citations_congr hcitations hmessage) ?_ ?_ ?_
  · simp only [Db.view, hconversations]
  · simp only [Db.view, howns, Table.select_insert hinsert]
  · simp only [Db.view, hdocuments]
  · refine view_jobs_congr hjobs fun j _ => ?_
    simp only [Db.ownsDocument, hdocuments]
  · simp only [Db.view, hsources]

end InsertMessage

/-! ## 4. Sources -/

section InsertSource

variable {row : SourceRow}

theorem insertSource_tables (h : db.insertSource? row = some db') :
    db.sources.insert? row = some db'.sources ∧ db'.conversations = db.conversations ∧
      db'.messages = db.messages ∧ db'.citations = db.citations ∧ db'.documents = db.documents ∧
      db'.jobs = db.jobs := by
  unfold Db.insertSource? at h
  split at h
  · exact nomatch h
  · obtain ⟨sources, hinsert, rfl⟩ := Option.map_eq_some_iff.mp h
    exact ⟨hinsert, rfl, rfl, rfl, rfl, rfl⟩

theorem insertSource_isSome (hu : row.ownerId = u) (hfree : db.Unused row.id) :
    (db.insertSource? row).isSome = !(decide (row.type = defaultSourceType) &&
      (db.view u).sources.any fun s => s.type = defaultSourceType) := by
  have hseen : ((db.view u).sources.any fun s => s.type = defaultSourceType) = true ↔
      ∃ s ∈ db.sources.rows, s.ownerId = row.ownerId ∧ s.type = defaultSourceType := by
    simp [Db.view, Table.select, hu]
  obtain ⟨sources, hinsert⟩ := Table.insert_of_free hfree.2.2.2.1
  rw [Bool.eq_iff_iff, Bool.not_eq_true', ← Bool.not_eq_true, Bool.and_eq_true, hseen,
    decide_eq_true_eq, Db.insertSource?, hinsert]
  split
  · rename_i htaken
    simp [htaken]
  · rename_i hnew
    simp [hnew]

theorem view_insertSource (h : db.insertSource? row = some db') :
    db'.view v = { db.view v with
      sources := if row.ownerId = v then Table.place SourceRow.id row (db.view v).sources
        else (db.view v).sources } := by
  obtain ⟨hinsert, hconversations, hmessages, hcitations, hdocuments, hjobs⟩ :=
    insertSource_tables h
  have howns : ∀ x, db'.ownsConversation v x = db.ownsConversation v x := by
    intro x
    simp only [Db.ownsConversation, hconversations]
  obtain ⟨hview, hmessage⟩ := view_messages_congr hmessages fun m _ => howns m.conversationId
  refine View.eq_of ?_ hview (view_citations_congr hcitations fun c _ => hmessage c.messageId)
    ?_ ?_ ?_
  · simp only [Db.view, hconversations]
  · simp only [Db.view, hdocuments]
  · refine view_jobs_congr hjobs fun j _ => ?_
    simp only [Db.ownsDocument, hdocuments]
  · simp only [Db.view, Table.select_insert hinsert, decide_eq_true_eq]

end InsertSource

/-! ## 5. Documents -/

section InsertDocument

variable {row : DocumentRow}

theorem insertDocument_tables (h : db.insertDocument? row = some db') :
    db.documents.insert? row = some db'.documents ∧ db'.conversations = db.conversations ∧
      db'.messages = db.messages ∧ db'.citations = db.citations ∧ db'.jobs = db.jobs ∧
      db'.sources = db.sources := by
  unfold Db.insertDocument? at h
  split at h
  · exact nomatch h
  · split at h
    · exact nomatch h
    · rename_i documents hinsert
      obtain rfl := Option.some.inj h
      exact ⟨hinsert, rfl, rfl, rfl, rfl, rfl⟩

theorem insertDocument_isSome (hu : row.uploadedBy = u) (hfree : db.Unused row.id) :
    (db.insertDocument? row).isSome =
      !((db.view u).documents.any fun d => d.checksum = row.checksum) := by
  have hseen : ((db.view u).documents.any fun d => d.checksum = row.checksum) = true ↔
      ∃ d ∈ db.documents.rows, d.uploadedBy = row.uploadedBy ∧ d.checksum = row.checksum := by
    simp [Db.view, Table.select, hu]
  obtain ⟨documents, hinsert⟩ := Table.insert_of_free hfree.2.2.2.2.1
  rw [Bool.eq_iff_iff, Bool.not_eq_true', ← Bool.not_eq_true, hseen, Db.insertDocument?]
  split
  · rename_i htaken
    simp [htaken]
  · rename_i hnew
    split
    · rename_i hnone
      rw [hinsert] at hnone
      cases hnone
    · simp [hnew]

theorem view_insertDocument (h : db.insertDocument? row = some db') (hfree : db.Unused row.id) :
    db'.view v = { db.view v with
      documents := if row.uploadedBy = v then Table.place DocumentRow.id row (db.view v).documents
        else (db.view v).documents } := by
  obtain ⟨hinsert, hconversations, hmessages, hcitations, hjobs, hsources⟩ :=
    insertDocument_tables h
  have howns : ∀ x, db'.ownsConversation v x = db.ownsConversation v x := by
    intro x
    simp only [Db.ownsConversation, hconversations]
  obtain ⟨hview, hmessage⟩ := view_messages_congr hmessages fun m _ => howns m.conversationId
  refine View.eq_of ?_ hview (view_citations_congr hcitations fun c _ => hmessage c.messageId)
    ?_ ?_ ?_
  · simp only [Db.view, hconversations]
  · simp only [Db.view, Table.select_insert hinsert, decide_eq_true_eq]
  · refine view_jobs_congr hjobs ?_
    intro j hj
    obtain ⟨d, hd, hid⟩ := db.jobs_fk j hj
    have hne : j.documentId ≠ row.id := hid ▸ hfree.2.2.2.2.1 d hd
    rw [Bool.eq_iff_iff, ownsDocument_iff, ownsDocument_iff]
    exact Table.exists_mem_insert hinsert fun hrow => hne hrow.2.symm
  · simp only [Db.view, hsources]

end InsertDocument

section UpdateDocument

variable {status : DocStatus} {error : Option String} {updatedAt : Timestamp}

theorem view_updateDocument :
    (db.updateDocument id status error updatedAt).view v = { db.view v with
      documents := (db.view v).documents.map fun d =>
        if d.id = id then { d with status := status, error := error, updatedAt := updatedAt }
        else d } := by
  have hkeep : ∀ d : DocumentRow, (fun d : DocumentRow => decide (d.uploadedBy = v))
      { d with status := status, error := error, updatedAt := updatedAt } =
        decide (d.uploadedBy = v) := fun _ => rfl
  have howns : ∀ x, (db.updateDocument id status error updatedAt).ownsDocument v x =
      db.ownsDocument v x := by
    intro x
    simp only [Db.ownsDocument, Db.updateDocument, Table.update, List.any_map]
    congr 1
    funext d
    simp only [Function.comp_apply]
    split <;> rfl
  refine View.eq_of rfl rfl rfl ?_ (view_jobs_congr rfl fun j _ => howns j.documentId) rfl
  simp only [Db.view, Db.updateDocument]
  refine (Table.select_update hkeep).trans ?_
  simp only [decide_eq_true_eq]

theorem updateDocument_other (hu : db.ownsDocument u id = true) (hne : v ≠ u) :
    (db.updateDocument id status error updatedAt).view v = db.view v := by
  rw [view_updateDocument]
  refine View.eq_of rfl rfl rfl ?_ rfl rfl
  refine (List.map_congr_left ?_).trans (List.map_id _)
  intro d hd
  obtain ⟨hmem, hv⟩ := Table.mem_select.mp hd
  have hid : d.id ≠ id := by
    rintro rfl
    have hother := ownsDocument_unique hu hne
    rw [ownsDocument_iff.mpr ⟨d, hmem, of_decide_eq_true hv, rfl⟩] at hother
    exact nomatch hother
  rw [if_neg hid]
  rfl

/-- An update moves no document from one user to another. -/
theorem updateDocument_owns (x : Uuid) :
    (db.updateDocument id status error updatedAt).ownsDocument v x = db.ownsDocument v x := by
  rw [ownsDocument_view, view_updateDocument, ownsDocument_view, List.any_map]
  congr 1
  funext d
  simp only [Function.comp_apply]
  split <;> rfl

end UpdateDocument

section DeleteDocument

theorem deleteDocument_owns (x : Uuid) :
    (db.deleteDocument id).ownsDocument v x = (db.ownsDocument v x && !decide (x = id)) := by
  rw [Bool.eq_iff_iff, ownsDocument_iff, Bool.and_eq_true, ownsDocument_iff]
  simp only [Db.deleteDocument, Table.delete, List.mem_filter, Bool.not_eq_true',
    decide_eq_false_iff_not]
  constructor
  · rintro ⟨d, ⟨hd, hne⟩, hv, rfl⟩
    exact ⟨⟨d, hd, hv, rfl⟩, hne⟩
  · rintro ⟨⟨d, hd, hv, rfl⟩, hne⟩
    exact ⟨d, ⟨hd, hne⟩, hv, rfl⟩

theorem view_deleteDocument :
    (db.deleteDocument id).view v = { db.view v with
      documents := (db.view v).documents.filter fun d => !decide (d.id = id)
      jobs := (db.view v).jobs.filter fun j => !decide (j.documentId = id) } := by
  refine View.eq_of rfl rfl rfl Table.select_delete ?_ rfl
  have hrows : (db.deleteDocument id).jobs.rows =
      db.jobs.rows.filter fun j => !decide (j.documentId = id) := rfl
  simp only [Db.view]
  rw [Table.select_filter, Table.select, hrows, List.filter_filter]
  refine List.filter_congr ?_
  intro j _
  rw [deleteDocument_owns]
  cases db.ownsDocument v j.documentId <;> simp

theorem deleteDocument_other (hu : db.ownsDocument u id = true) (hne : v ≠ u) :
    (db.deleteDocument id).view v = db.view v := by
  have hother := ownsDocument_unique hu hne
  rw [view_deleteDocument]
  refine View.eq_of rfl rfl rfl ?_ ?_ rfl
  · refine List.filter_eq_self.mpr ?_
    intro d hd
    obtain ⟨hmem, hv⟩ := Table.mem_select.mp hd
    rw [Bool.not_eq_true', decide_eq_false_iff_not]
    rintro rfl
    rw [ownsDocument_iff.mpr ⟨d, hmem, of_decide_eq_true hv, rfl⟩] at hother
    exact nomatch hother
  · refine List.filter_eq_self.mpr ?_
    intro j hj
    obtain ⟨-, hv⟩ := Table.mem_select.mp hj
    rw [Bool.not_eq_true', decide_eq_false_iff_not]
    rintro rfl
    rw [hother] at hv
    exact nomatch hv

end DeleteDocument

/-! ## 6. Unused ids -/

section Unused

variable {x : Uuid}

theorem unused_insertConversation {row : ConversationRow}
    (h : db.insertConversation? row = some db') (hx : db.Unused x) (hne : row.id ≠ x) :
    db'.Unused x := by
  obtain ⟨hinsert, hmessages, hcitations, hdocuments, hjobs, hsources⟩ :=
    insertConversation_tables h
  obtain ⟨h₁, h₂, h₃, h₄, h₅, h₆⟩ := hx
  refine ⟨?_, hmessages ▸ h₂, hcitations ▸ h₃, hsources ▸ h₄, hdocuments ▸ h₅, hjobs ▸ h₆⟩
  exact Table.forall_mem_insert hinsert hne h₁

theorem unused_insertMessage {row : MessageRow} (h : db.insertMessage? row = some db')
    (hx : db.Unused x) (hne : row.id ≠ x) : db'.Unused x := by
  obtain ⟨hinsert, hconversations, hcitations, hdocuments, hjobs, hsources⟩ :=
    insertMessage_tables h
  obtain ⟨h₁, h₂, h₃, h₄, h₅, h₆⟩ := hx
  refine ⟨hconversations ▸ h₁, ?_, hcitations ▸ h₃, hsources ▸ h₄, hdocuments ▸ h₅, hjobs ▸ h₆⟩
  exact Table.forall_mem_insert hinsert hne h₂

theorem unused_insertSource {row : SourceRow} (h : db.insertSource? row = some db')
    (hx : db.Unused x) (hne : row.id ≠ x) : db'.Unused x := by
  obtain ⟨hinsert, hconversations, hmessages, hcitations, hdocuments, hjobs⟩ :=
    insertSource_tables h
  obtain ⟨h₁, h₂, h₃, h₄, h₅, h₆⟩ := hx
  refine ⟨hconversations ▸ h₁, hmessages ▸ h₂, hcitations ▸ h₃, ?_, hdocuments ▸ h₅, hjobs ▸ h₆⟩
  exact Table.forall_mem_insert hinsert hne h₄

theorem unused_insertDocument {row : DocumentRow} (h : db.insertDocument? row = some db')
    (hx : db.Unused x) (hne : row.id ≠ x) : db'.Unused x := by
  obtain ⟨hinsert, hconversations, hmessages, hcitations, hjobs, hsources⟩ :=
    insertDocument_tables h
  obtain ⟨h₁, h₂, h₃, h₄, h₅, h₆⟩ := hx
  refine ⟨hconversations ▸ h₁, hmessages ▸ h₂, hcitations ▸ h₃, hsources ▸ h₄, ?_, hjobs ▸ h₆⟩
  exact Table.forall_mem_insert hinsert hne h₅

theorem unused_updateConversation {title : Option Text} {updatedAt : Timestamp}
    (hx : db.Unused x) : (db.updateConversation id title updatedAt).Unused x := by
  obtain ⟨h₁, hrest⟩ := hx
  refine ⟨?_, hrest⟩
  intro r hr
  obtain ⟨c, hc, rfl⟩ := List.mem_map.mp hr
  split <;> exact h₁ c hc

theorem unused_updateDocument {status : DocStatus} {error : Option String}
    {updatedAt : Timestamp} (hx : db.Unused x) :
    (db.updateDocument id status error updatedAt).Unused x := by
  obtain ⟨h₁, h₂, h₃, h₄, h₅, h₆⟩ := hx
  refine ⟨h₁, h₂, h₃, h₄, ?_, h₆⟩
  intro r hr
  obtain ⟨d, hd, rfl⟩ := List.mem_map.mp hr
  split <;> exact h₅ d hd

theorem unused_deleteConversation (hx : db.Unused x) : (db.deleteConversation id).Unused x := by
  obtain ⟨h₁, h₂, h₃, h₄, h₅, h₆⟩ := hx
  exact ⟨fun r hr => h₁ r (List.mem_filter.mp hr).1, fun r hr => h₂ r (List.mem_filter.mp hr).1,
    fun r hr => h₃ r (List.mem_filter.mp hr).1, h₄, h₅, h₆⟩

theorem unused_deleteDocument (hx : db.Unused x) : (db.deleteDocument id).Unused x := by
  obtain ⟨h₁, h₂, h₃, h₄, h₅, h₆⟩ := hx
  exact ⟨h₁, h₂, h₃, h₄, fun r hr => h₅ r (List.mem_filter.mp hr).1,
    fun r hr => h₆ r (List.mem_filter.mp hr).1⟩

end Unused

end AtlasKnowledge.Services
