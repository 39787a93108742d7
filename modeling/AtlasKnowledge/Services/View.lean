/-
# What belongs to a user

A user's view of the database: the user's conversations with their messages and citations, the
documents the user uploaded with their jobs, and the user's sources.

Every read that a service makes for a user is a function of that user's view
(`getOwnedConversation_view` and its like), and every statement changes the view of the owner of
the row by a function of that view, and no other (`insertConversation_own`,
`insertConversation_other` and their like).
-/
import AtlasKnowledge.Services.Queries

namespace AtlasKnowledge.Services

open Pagination (listing rowPosition)
open Pipeline (Stage DocStatus stageOrder)

/-! ## 1. The view -/

/-- The conversation is the user's. -/
def Db.ownsConversation (db : Db) (userId id : Uuid) : Bool :=
  db.conversations.rows.any fun c => c.userId = userId && c.id = id

/-- The message is in one of the user's conversations. -/
def Db.ownsMessage (db : Db) (userId id : Uuid) : Bool :=
  db.messages.rows.any fun m => db.ownsConversation userId m.conversationId && m.id = id

/-- The user uploaded the document. -/
def Db.ownsDocument (db : Db) (userId id : Uuid) : Bool :=
  db.documents.rows.any fun d => d.uploadedBy = userId && d.id = id

structure View where
  conversations : List ConversationRow
  messages : List MessageRow
  citations : List CitationRow
  documents : List DocumentRow
  jobs : List JobRow
  sources : List SourceRow

def Db.view (db : Db) (userId : Uuid) : View where
  conversations := db.conversations.select fun c => c.userId = userId
  messages := db.messages.select fun m => db.ownsConversation userId m.conversationId
  citations := db.citations.select fun c => db.ownsMessage userId c.messageId
  documents := db.documents.select fun d => d.uploadedBy = userId
  jobs := db.jobs.select fun j => db.ownsDocument userId j.documentId
  sources := db.sources.select fun s => s.ownerId = userId

variable {db db' db₁ db₂ : Db} {u v id : Uuid}

theorem ownsConversation_iff :
    db.ownsConversation u id = true ↔ ∃ c ∈ db.conversations.rows, c.userId = u ∧ c.id = id := by
  simp [Db.ownsConversation, List.any_eq_true]

theorem ownsMessage_iff : db.ownsMessage u id = true ↔
    ∃ m ∈ db.messages.rows, db.ownsConversation u m.conversationId = true ∧ m.id = id := by
  simp [Db.ownsMessage, List.any_eq_true]

theorem ownsDocument_iff :
    db.ownsDocument u id = true ↔ ∃ d ∈ db.documents.rows, d.uploadedBy = u ∧ d.id = id := by
  simp [Db.ownsDocument, List.any_eq_true]

/-- **One owner.**  A conversation of one user is no other user's. -/
theorem ownsConversation_unique (hu : db.ownsConversation u id = true) (hne : v ≠ u) :
    db.ownsConversation v id = false := by
  rw [← Bool.not_eq_true, ownsConversation_iff]
  rintro ⟨c, hc, hv, hid⟩
  obtain ⟨c', hc', hu', hid'⟩ := ownsConversation_iff.mp hu
  obtain rfl := Table.eq_of_key hc hc' (hid.trans hid'.symm)
  exact hne (hv.symm.trans hu')

theorem ownsDocument_unique (hu : db.ownsDocument u id = true) (hne : v ≠ u) :
    db.ownsDocument v id = false := by
  rw [← Bool.not_eq_true, ownsDocument_iff]
  rintro ⟨d, hd, hv, hid⟩
  obtain ⟨d', hd', hu', hid'⟩ := ownsDocument_iff.mp hu
  obtain rfl := Table.eq_of_key hd hd' (hid.trans hid'.symm)
  exact hne (hv.symm.trans hu')

/-! ## 2. Reads -/

theorem getOwnedConversation_view :
    getOwnedConversation db u id = (db.view u).conversations.find? fun c => c.id = id :=
  Table.find_select.symm

theorem getOwnedDocument_view :
    getOwnedDocument db u id = (db.view u).documents.find? fun d => d.id = id :=
  Table.find_select.symm

theorem getByChecksum_view (checksum : Text) :
    getByChecksum db u checksum = (db.view u).documents.find? fun d => d.checksum = checksum :=
  Table.find_select.symm

theorem getOwnedSource_view :
    getOwnedSource db u id = (db.view u).sources.find? fun s => s.id = id :=
  Table.find_select.symm

theorem getDefaultSource_view :
    getDefaultSource db u = (db.view u).sources.find? fun s => s.type = defaultSourceType :=
  Table.find_select.symm

theorem conversationsOf_view : conversationsOf db u = (db.view u).conversations := rfl

theorem documentsOf_view (status : Option String) :
    documentsOf db u status =
      (db.view u).documents.filter fun d => status.all fun s => statusText d.status = s :=
  Table.select_filter.symm

/-- The messages of a conversation of the user. -/
theorem messagesOf_view (h : db.ownsConversation u id = true) :
    messagesOf db id = (db.view u).messages.filter fun m => m.conversationId = id := by
  rw [Db.view, Table.select_filter, messagesOf]
  refine List.filter_congr ?_
  intro m _
  by_cases hm : m.conversationId = id
  · simp [hm, h]
  · simp [hm]

/-- The failed jobs of a document of the user. -/
theorem firstFailedStage_view (h : db.ownsDocument u id = true) :
    firstFailedStage db id = stageOrder.find? fun stage =>
      stage ∈ (((db.view u).jobs.filter fun j => j.documentId = id && j.status = .failed).map
        JobRow.stage) := by
  have hjobs : (db.jobs.select fun j => j.documentId = id && j.status = .failed) =
      (db.view u).jobs.filter fun j => j.documentId = id && j.status = .failed := by
    rw [Db.view, Table.select_filter]
    refine List.filter_congr ?_
    intro j _
    by_cases hj : j.documentId = id
    · simp [hj, h]
    · simp [hj]
  rw [firstFailedStage, hjobs]

/-- The citations of messages of the user. -/
theorem citations_view {ids : List Uuid} (h : ∀ id ∈ ids, db.ownsMessage u id = true) :
    (db.citations.select fun c => c.messageId ∈ ids) =
      (db.view u).citations.filter fun c => c.messageId ∈ ids := by
  rw [Db.view, Table.select_filter]
  refine List.filter_congr ?_
  intro c _
  by_cases hc : c.messageId ∈ ids
  · simp [hc, h _ hc]
  · simp [hc]

/-- What is read of a conversation or a document that was read before is the user's. -/
theorem ownsConversation_of_get {c : ConversationRow} (h : getOwnedConversation db u id = some c) :
    db.ownsConversation u id = true ∧ c.id = id := by
  obtain ⟨hmem, hp⟩ := Table.selectOne_some h
  simp only [Bool.and_eq_true, decide_eq_true_eq] at hp
  exact ⟨ownsConversation_iff.mpr ⟨c, hmem, hp⟩, hp.2⟩

theorem ownsDocument_of_get {d : DocumentRow} (h : getOwnedDocument db u id = some d) :
    db.ownsDocument u d.id = true := by
  obtain ⟨hmem, hp⟩ := Table.selectOne_some h
  simp only [Bool.and_eq_true, decide_eq_true_eq] at hp
  exact ownsDocument_iff.mpr ⟨d, hmem, hp.1, rfl⟩

theorem ownsDocument_of_checksum {d : DocumentRow} {checksum : Text}
    (h : getByChecksum db u checksum = some d) : db.ownsDocument u d.id = true := by
  obtain ⟨hmem, hp⟩ := Table.selectOne_some h
  simp only [Bool.and_eq_true, decide_eq_true_eq] at hp
  exact ownsDocument_iff.mpr ⟨d, hmem, hp.1, rfl⟩

theorem ownsDocument_view :
    db.ownsDocument u id = (db.view u).documents.any fun d => d.id = id := by
  rw [Bool.eq_iff_iff, ownsDocument_iff]
  simp [Db.view, Table.select]

end AtlasKnowledge.Services
