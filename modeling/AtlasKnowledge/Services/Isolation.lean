/-
# Isolation of owners

The operations of one user read and write what belongs to that user.  Two databases that agree on
the user's view give the same results and the same errors, and agree on the view afterwards;
nobody else's view changes.  So the rows of somebody else might as well not be there
(`Db.only`): their ids behave as ids that do not exist.

Each operation is put together from the reads and statements of `View.lean` and `Writes.lean` by
the rules of `Observer`; what carries it is that every id a statement acts on was read through an
owner filter before.
-/
import AtlasKnowledge.Services.Operations
import AtlasKnowledge.Services.Writes
import AtlasKnowledge.Services.Traversal

namespace AtlasKnowledge.Services

open Chat (ModelParams)
open Observer
open Pagination (Timestamp)
open Pipeline (Stage DocStatus)

/-! ## 1. The observer -/

/-- Two worlds look the same to a user; the ids of later calls are used in neither. -/
structure SameTo (userId : Uuid) (later : List Uuid) (w₁ w₂ : World) : Prop where
  effects : w₁.effects = w₂.effects
  view : w₁.db.view userId = w₂.db.view userId
  unused₁ : ∀ id ∈ later, w₁.db.Unused id
  unused₂ : ∀ id ∈ later, w₂.db.Unused id

/-- Nobody else's view has changed. -/
def OthersKept (userId : Uuid) (w w' : World) : Prop :=
  ∀ v, v ≠ userId → w'.db.view v = w.db.view v

/-- A user, with the ids that later calls will draw. -/
def user (userId : Uuid) (later : List Uuid) : Observer World where
  Same := SameTo userId later
  Frame := OthersKept userId
  frame_refl _ _ _ := rfl
  frame_trans h h' v hv := (h' v hv).trans (h v hv)

/-- An operation of the user, with what it needs of the database and what it leaves. -/
def Isolated {α : Type} (userId : Uuid) (later : List Uuid) (pre : Db → Prop) (m : Op α)
    (post : α → Db → Prop) : Prop :=
  (user userId later).Secure (fun w => pre w.db) m fun a w => post a w.db

variable {u id : Uuid} {later : List Uuid} {α β : Type} {P P' : Db → Prop} {Q Q' : α → Db → Prop}
  {R : β → Db → Prop} {db db' db₁ db₂ : Db}

/-- Each world of a pair looks the same as itself. -/
theorem SameTo.refl {w₁ w₂ : World} (h : SameTo u later w₁ w₂) :
    SameTo u later w₁ w₁ ∧ SameTo u later w₂ w₂ :=
  ⟨⟨rfl, rfl, h.unused₁, h.unused₁⟩, ⟨rfl, rfl, h.unused₂, h.unused₂⟩⟩

/-! ## 2. Rules -/

theorem isolated_pure {a : α} (h : ∀ db, P db → Q a db) : Isolated u later P (pure a) Q :=
  secure_pure fun w hw => h w.db hw

theorem isolated_throw (e : Failure) : Isolated u later P (throw e : Op α) Q := secure_throw e

theorem isolated_bind {m : Op α} {f : α → Op β} (hm : Isolated u later P m Q)
    (hf : ∀ a, Isolated u later (Q a) (f a) R) : Isolated u later P (m >>= f) R :=
  secure_bind hm hf

theorem isolated_mono {m : Op α} (h : Isolated u later P m Q) (hpre : ∀ db, P' db → P db)
    (hpost : ∀ a db, Q a db → Q' a db) : Isolated u later P' m Q' :=
  secure_mono h (fun w hw => hpre w.db hw) fun a w hw => hpost a w.db hw

theorem isolated_ite {c : Prop} [Decidable c] {m n : Op α} (hm : c → Isolated u later P m Q)
    (hn : ¬ c → Isolated u later P n Q) : Isolated u later P (if c then m else n) Q :=
  secure_ite hm hn

/-- A read of what the view determines. -/
theorem isolated_query {f : Db → α}
    (h : ∀ db₁ db₂ : Db, db₁.view u = db₂.view u → P db₁ → P db₂ → f db₁ = f db₂) :
    Isolated u later P (query f) fun a db => P db ∧ a = f db :=
  secure_read fun w₁ w₂ hsame h₁ h₂ => h w₁.db w₂.db hsame.view h₁ h₂

/-- A value that was read is fixed from then on. -/
theorem isolated_ofExcept (e : Except AppError α) :
    Isolated u later P (ofExcept e) fun a db => P db ∧ e = .ok a := by
  cases e with
  | error e => exact isolated_throw _
  | ok a => exact isolated_pure fun db hdb => ⟨hdb, rfl⟩

theorem isolated_emit (effect : Effect) : Isolated u later P (emit effect) fun _ db => P db := by
  refine secure_change ?_ (fun w _ _ v _ => rfl) (fun w hw => hw) fun w₁ w₂ h => h.refl
  intro w₁ w₂ hsame _ _
  exact ⟨by rw [hsame.effects], hsame.view, hsame.unused₁, hsame.unused₂⟩

/-- An update or a delete of what is the user's. -/
theorem isolated_execute {f : Db → Db} {Q : Db → Prop}
    (hview : ∀ db₁ db₂ : Db, db₁.view u = db₂.view u → P db₁ → P db₂ →
      (f db₁).view u = (f db₂).view u)
    (hothers : ∀ db v, P db → v ≠ u → (f db).view v = db.view v)
    (hunused : ∀ db x, Db.Unused db x → (f db).Unused x) (hpost : ∀ db, P db → Q (f db)) :
    Isolated u later P (execute f) fun _ db => Q db := by
  refine secure_change ?_ (fun w _ hw v hv => hothers w.db v hw hv) (fun w hw => hpost w.db hw)
    fun w₁ w₂ h => h.refl
  intro w₁ w₂ hsame h₁ h₂
  exact ⟨hsame.effects, hview w₁.db w₂.db hsame.view h₁ h₂,
    fun x hx => hunused w₁.db x (hsame.unused₁ x hx),
    fun x hx => hunused w₂.db x (hsame.unused₂ x hx)⟩

/-- **An insert of a row of the user.**  Whether it goes in shows in the user's view. -/
theorem isolated_tryInsert {f : Db → Option Db} {Q : Bool → Db → Prop}
    (hsome : ∀ db₁ db₂ : Db, db₁.view u = db₂.view u → P db₁ → P db₂ →
      (f db₁).isSome = (f db₂).isSome)
    (hview : ∀ db₁ db₂ db₁' db₂' : Db, db₁.view u = db₂.view u → P db₁ → P db₂ →
      f db₁ = some db₁' → f db₂ = some db₂' → db₁'.view u = db₂'.view u)
    (hothers : ∀ (db db' : Db) v, P db → f db = some db' → v ≠ u → db'.view v = db.view v)
    (hunused : ∀ (db db' : Db), P db → f db = some db' → ∀ x ∈ later, db.Unused x → db'.Unused x)
    (htrue : ∀ db db' : Db, P db → f db = some db' → Q true db')
    (hfalse : ∀ db : Db, P db → Q false db) : Isolated u later P (tryInsert f) Q := by
  intro w₁ w₂ hsame h₁ h₂
  have hagree := hsome w₁.db w₂.db hsame.view h₁ h₂
  unfold Observer.run tryInsert
  cases hf₁ : f w₁.db with
  | none =>
    have hf₂ : f w₂.db = none := by
      rw [hf₁] at hagree
      exact Option.isNone_iff_eq_none.mp (by simpa using hagree.symm)
    rw [hf₂]
    refine ⟨rfl, hsame, fun v _ => rfl, fun v _ => rfl, ?_, ?_⟩
    · rintro b ⟨⟩
      exact hfalse w₁.db h₁
    · rintro b ⟨⟩
      exact hfalse w₂.db h₂
  | some db₁ =>
    rw [hf₁] at hagree
    obtain ⟨db₂, hf₂⟩ := Option.isSome_iff_exists.mp hagree.symm
    rw [hf₂]
    refine ⟨rfl, ⟨hsame.effects, hview _ _ _ _ hsame.view h₁ h₂ hf₁ hf₂, ?_, ?_⟩,
      fun v hv => hothers _ _ v h₁ hf₁ hv, fun v hv => hothers _ _ v h₂ hf₂ hv, ?_, ?_⟩
    · exact fun x hx => hunused _ _ h₁ hf₁ x hx (hsame.unused₁ x hx)
    · exact fun x hx => hunused _ _ h₂ hf₂ x hx (hsame.unused₂ x hx)
    · rintro b ⟨⟩
      exact htrue _ _ h₁ hf₁
    · rintro b ⟨⟩
      exact htrue _ _ h₂ hf₂

/-- An error takes back what was written, in both worlds. -/
theorem isolated_transaction {m : Op α} (h : Isolated u later P m Q) :
    Isolated u later P (transaction m) Q := by
  intro w₁ w₂ hsame h₁ h₂
  have hruns := h w₁ w₂ hsame h₁ h₂
  unfold Observer.run at hruns ⊢
  unfold transaction
  generalize m w₁ = r₁ at hruns
  generalize m w₂ = r₂ at hruns
  obtain ⟨a₁, t₁⟩ := r₁
  obtain ⟨a₂, t₂⟩ := r₂
  obtain rfl : a₁ = a₂ := hruns.result
  cases a₁ with
  | ok a => exact hruns
  | error e =>
    exact ⟨rfl, ⟨hruns.same.effects, hsame.view, hsame.unused₁, hsame.unused₂⟩, fun v _ => rfl,
      fun v _ => rfl, nofun, nofun⟩

/-! ## 3. Reads and inserts -/

/-- Reading a row through an owner filter. -/
theorem isolated_getConversation : Isolated u later P (getConversation u id) fun conv db =>
    P db ∧ db.ownsConversation u id = true ∧ conv.id = id := by
  refine isolated_bind (isolated_query ?_) ?_
  · intro db₁ db₂ hview _ _
    rw [getOwnedConversation_view, getOwnedConversation_view, hview]
  · rintro (_ | conv)
    · exact isolated_throw _
    · refine isolated_pure ?_
      rintro db ⟨hP, hget⟩
      exact ⟨hP, ownsConversation_of_get hget.symm⟩

theorem isolated_getDocument : Isolated u later P (getDocument u id) fun doc db =>
    P db ∧ db.ownsDocument u doc.id = true := by
  refine isolated_bind (isolated_query ?_) ?_
  · intro db₁ db₂ hview _ _
    rw [getOwnedDocument_view, getOwnedDocument_view, hview]
  · rintro (_ | doc)
    · exact isolated_throw _
    · refine isolated_pure ?_
      rintro db ⟨hP, hget⟩
      exact ⟨hP, ownsDocument_of_get hget.symm⟩

theorem isolated_getByChecksum (checksum : Text) :
    Isolated u later P (query fun db => getByChecksum db u checksum) fun found db =>
      P db ∧ ∀ doc ∈ found, db.ownsDocument u doc.id = true := by
  refine isolated_mono (isolated_query ?_) (fun db h => h) ?_
  · intro db₁ db₂ hview _ _
    rw [getByChecksum_view, getByChecksum_view, hview]
  · rintro found db ⟨hP, rfl⟩
    exact ⟨hP, fun doc hdoc => ownsDocument_of_checksum hdoc⟩

theorem isolated_getOwnedSource : Isolated u later P (query fun db => getOwnedSource db u id)
    fun found db => P db ∧ found = getOwnedSource db u id := by
  refine isolated_query ?_
  intro db₁ db₂ hview _ _
  rw [getOwnedSource_view, getOwnedSource_view, hview]

theorem isolated_getDefaultSource : Isolated u later P (query fun db => getDefaultSource db u)
    fun found db => P db ∧ found = getDefaultSource db u := by
  refine isolated_query ?_
  intro db₁ db₂ hview _ _
  rw [getDefaultSource_view, getDefaultSource_view, hview]

theorem isolated_insertConversation {row : ConversationRow} (hu : row.userId = u)
    (hlater : row.id ∉ later) :
    Isolated u later (fun db => db.Unused row.id) (tryInsert fun db => db.insertConversation? row)
      fun _ _ => True := by
  refine isolated_tryInsert ?_ ?_ ?_ ?_ (fun _ _ _ _ => trivial) fun _ _ => trivial
  · intro db₁ db₂ _ h₁ h₂
    obtain ⟨db₁', h₁'⟩ := insertConversation_isSome h₁
    obtain ⟨db₂', h₂'⟩ := insertConversation_isSome h₂
    rw [h₁', h₂']
    rfl
  · intro db₁ db₂ db₁' db₂' hview h₁ h₂ hi₁ hi₂
    rw [view_insertConversation hi₁ h₁, view_insertConversation hi₂ h₂, hview]
  · intro db db' v h hi hv
    rw [view_insertConversation hi h, if_neg fun heq => hv (heq.symm.trans hu)]
  · intro db db' _ hi x hx hunused
    exact unused_insertConversation hi hunused fun heq => hlater (heq ▸ hx)

theorem isolated_insertSource {row : SourceRow} {x : Uuid} (hu : row.ownerId = u)
    (hlater : row.id ∉ later) (hne : row.id ≠ x) :
    Isolated u later (fun db => db.Unused row.id ∧ db.Unused x)
      (tryInsert fun db => db.insertSource? row) fun _ db => db.Unused x := by
  refine isolated_tryInsert ?_ ?_ ?_ ?_ ?_ fun _ h => h.2
  · intro db₁ db₂ hview h₁ h₂
    rw [insertSource_isSome hu h₁.1, insertSource_isSome hu h₂.1, hview]
  · intro db₁ db₂ db₁' db₂' hview _ _ hi₁ hi₂
    rw [view_insertSource hi₁, view_insertSource hi₂, hview]
  · intro db db' v _ hi hv
    rw [view_insertSource hi, if_neg fun heq => hv (heq.symm.trans hu)]
  · intro db db' _ hi y hy hunused
    exact unused_insertSource hi hunused fun heq => hlater (heq ▸ hy)
  · intro db db' h hi
    exact unused_insertSource hi h.2 hne

theorem isolated_insertDocument {row : DocumentRow} (hu : row.uploadedBy = u)
    (hfree : ∀ db, P db → db.Unused row.id) (hlater : row.id ∉ later) :
    Isolated u later P (tryInsert fun db => db.insertDocument? row)
      fun ok db => ok = true → db.ownsDocument u row.id = true := by
  refine isolated_tryInsert ?_ ?_ ?_ ?_ ?_ fun _ _ => nofun
  · intro db₁ db₂ hview h₁ h₂
    rw [insertDocument_isSome hu (hfree _ h₁), insertDocument_isSome hu (hfree _ h₂), hview]
  · intro db₁ db₂ db₁' db₂' hview h₁ h₂ hi₁ hi₂
    rw [view_insertDocument hi₁ (hfree _ h₁), view_insertDocument hi₂ (hfree _ h₂), hview]
  · intro db db' v h hi hv
    rw [view_insertDocument hi (hfree _ h), if_neg fun heq => hv (heq.symm.trans hu)]
  · intro db db' _ hi x hx hunused
    exact unused_insertDocument hi hunused fun heq => hlater (heq ▸ hx)
  · intro db db' _ hi _
    exact ownsDocument_iff.mpr
      ⟨row, (Table.mem_insert (insertDocument_tables hi).1).mpr (.inl rfl), hu, rfl⟩

theorem isolated_insertMessage {row : MessageRow} (hfree : ∀ db, P db → db.Unused row.id)
    (howns : ∀ db, P db → db.ownsConversation u row.conversationId = true)
    (hlater : row.id ∉ later) :
    Isolated u later P (tryInsert fun db => db.insertMessage? row)
      fun _ db => db.ownsConversation u row.conversationId = true := by
  refine isolated_tryInsert ?_ ?_ ?_ ?_ ?_ howns
  · intro db₁ db₂ hview h₁ h₂
    rw [insertMessage_isSome (howns _ h₁) (hfree _ h₁),
      insertMessage_isSome (howns _ h₂) (hfree _ h₂), hview]
  · intro db₁ db₂ db₁' db₂' hview h₁ h₂ hi₁ hi₂
    rw [view_insertMessage hi₁ (hfree _ h₁), view_insertMessage hi₂ (hfree _ h₂), hview,
      if_pos (howns _ h₁), if_pos (howns _ h₂)]
  · intro db db' v h hi hv
    rw [view_insertMessage hi (hfree _ h), if_neg]
    rw [ownsConversation_unique (howns _ h) hv]
    exact Bool.false_ne_true
  · intro db db' _ hi x hx hunused
    exact unused_insertMessage hi hunused fun heq => hlater (heq ▸ hx)
  · intro db db' h hi
    have hsame : db'.conversations = db.conversations := (insertMessage_tables hi).2.1
    simpa only [Db.ownsConversation, hsame] using howns db h

/-! ## 4. Updates and deletes -/

theorem isolated_updateDocument {status : DocStatus} {error : Option String}
    {updatedAt : Timestamp} :
    Isolated u later (fun db => db.ownsDocument u id = true)
      (execute fun db => db.updateDocument id status error updatedAt)
      fun _ db => db.ownsDocument u id = true := by
  refine isolated_execute ?_ (fun db v h hv => updateDocument_other h hv)
    (fun db x h => unused_updateDocument h) ?_
  · intro db₁ db₂ hview _ _
    rw [view_updateDocument, view_updateDocument, hview]
  · intro db h
    rw [updateDocument_owns]
    exact h

theorem isolated_updateConversation {title : Option Text} {updatedAt : Timestamp} :
    Isolated u later (fun db => db.ownsConversation u id = true)
      (execute fun db => db.updateConversation id title updatedAt) fun _ _ => True := by
  refine isolated_execute ?_ (fun db v h hv => updateConversation_other h hv)
    (fun db x h => unused_updateConversation h) fun _ _ => trivial
  intro db₁ db₂ hview _ _
  rw [view_updateConversation, view_updateConversation, hview]

theorem isolated_deleteConversation :
    Isolated u later (fun db => db.ownsConversation u id = true)
      (execute fun db => db.deleteConversation id) fun _ _ => True := by
  refine isolated_execute ?_ (fun db v h hv => deleteConversation_other h hv)
    (fun db x h => unused_deleteConversation h) fun _ _ => trivial
  intro db₁ db₂ hview h₁ h₂
  have hof : ∀ messageId, db₁.isOf id messageId = db₂.isOf id messageId := by
    intro messageId
    rw [isOf_view h₁, isOf_view h₂, hview]
  rw [view_deleteConversation, view_deleteConversation, hview]
  simp only [hof]

theorem isolated_deleteDocument :
    Isolated u later (fun db => db.ownsDocument u id = true)
      (execute fun db => db.deleteDocument id) fun _ _ => True := by
  refine isolated_execute ?_ (fun db v h hv => deleteDocument_other h hv)
    (fun db x h => unused_deleteDocument h) fun _ _ => trivial
  intro db₁ db₂ hview _ _
  rw [view_deleteDocument, view_deleteDocument, hview]

/-! ## 5. The services -/

variable {env : Env} {draws : Draws}

theorem isolated_enqueueStage (doc : DocumentRow) (stage : Stage) :
    Isolated u later (fun db => db.ownsDocument u doc.id = true) (enqueueStage draws doc stage)
      fun _ _ => True := by
  refine isolated_ite (fun _ => ?_) fun _ => ?_
  · exact isolated_bind (isolated_emit _) fun _ => isolated_pure fun _ _ => trivial
  · exact isolated_bind isolated_updateDocument fun _ => isolated_pure fun _ _ => trivial

theorem isolated_restartFromFailedStage (doc : DocumentRow) :
    Isolated u later (fun db => db.ownsDocument u doc.id = true)
      (restartFromFailedStage draws doc) fun _ _ => True := by
  refine isolated_bind (isolated_query ?_) ?_
  · intro db₁ db₂ hview h₁ h₂
    rw [firstFailedStage_view h₁, firstFailedStage_view h₂, hview]
  · intro failed
    refine isolated_bind (isolated_mono isolated_updateDocument (fun db h => h.1) fun _ _ h => h) ?_
    intro _
    exact isolated_enqueueStage { doc with
      status := (failed.getD .parse).entryStatus, error := none, updatedAt := draws.now 2 } _

theorem isolated_resetIfFailed (doc : DocumentRow) :
    Isolated u later (fun db => db.ownsDocument u doc.id = true) (resetIfFailed draws doc)
      fun _ _ => True :=
  isolated_ite (fun _ => isolated_restartFromFailedStage doc)
    fun _ => isolated_pure fun _ _ => trivial

/-- The source of an upload is the user's, and the document's id stays unused. -/
theorem isolated_resolveSourceId {x : Uuid} (sourceId : Option Uuid)
    (hlater : draws.sourceId ∉ later) (hne : draws.sourceId ≠ x) :
    Isolated u later (fun db => db.Unused draws.sourceId ∧ db.Unused x)
      (resolveSourceId draws u sourceId) fun _ db => db.Unused x := by
  cases sourceId with
  | some id =>
    refine isolated_bind isolated_getOwnedSource ?_
    rintro (_ | source)
    · exact isolated_throw _
    · exact isolated_pure fun db h => h.1.2
  | none =>
    refine isolated_bind isolated_getDefaultSource ?_
    rintro (_ | source)
    · refine isolated_bind (isolated_mono (isolated_insertSource rfl hlater hne)
        (fun db h => h.1) fun _ _ h => h) ?_
      intro ok
      refine isolated_ite (fun _ => isolated_pure fun db h => h) fun _ => ?_
      refine isolated_bind isolated_getDefaultSource ?_
      rintro (_ | source)
      · exact isolated_throw _
      · exact isolated_pure fun db h => h.1
    · exact isolated_pure fun db h => h.1.2

/-- A document of a known checksum is handed back, restarted if it had failed. -/
theorem isolated_duplicate (doc : DocumentRow) :
    Isolated u later (fun db => db.ownsDocument u doc.id = true)
      (do let doc ← resetIfFailed draws doc; pure (doc, true) : Op (DocumentRow × Bool))
      fun _ _ => True :=
  isolated_bind (isolated_resetIfFailed doc) fun _ => isolated_pure fun _ _ => trivial

theorem isolated_storeNew {safeName : Text} {mime : String} {checksum : Text} {data : Bytes}
    (sourceId : Option Uuid) (hnodup : (draws.ids ++ later).Nodup) :
    Isolated u later (fun db => ∀ id ∈ draws.ids, db.Unused id)
      (storeNew env draws u safeName mime checksum data sourceId) fun _ _ => True := by
  obtain ⟨hids, -, hdisjoint⟩ := List.nodup_append.mp hnodup
  have hlater : ∀ id ∈ draws.ids, id ∉ later := fun id hid hin => hdisjoint id hid id hin rfl
  have hne : draws.sourceId ≠ draws.rowId := by
    rintro heq
    simp [Draws.ids, heq] at hids
  refine isolated_bind (isolated_mono (isolated_resolveSourceId (x := draws.rowId) sourceId
    (hlater _ (by simp [Draws.ids])) hne) ?_ fun _ _ h => h) ?_
  · intro db h
    exact ⟨h _ (by simp [Draws.ids]), h _ (by simp [Draws.ids])⟩
  · intro resolved
    refine isolated_ite (fun _ => ?_) fun _ => isolated_throw _
    refine isolated_bind (isolated_emit _) fun _ => ?_
    refine isolated_bind (isolated_insertDocument rfl (fun db h => h)
      (hlater draws.rowId (by simp [Draws.ids]))) ?_
    intro ok
    refine isolated_ite (fun hok => ?_) fun _ => ?_
    · refine isolated_bind (isolated_mono (isolated_enqueueStage _ _) (fun db h => h hok)
        fun _ _ h => h) ?_
      exact fun _ => isolated_pure fun _ _ => trivial
    · refine isolated_bind (isolated_emit _) fun _ => ?_
      refine isolated_bind (isolated_getByChecksum checksum) ?_
      rintro (_ | duplicate)
      · exact isolated_throw _
      · exact isolated_mono (isolated_duplicate duplicate) (fun db h => h.2 duplicate rfl)
          fun _ _ h => h

theorem isolated_upload {filename : Text} {contentType : Option Text} {data : Bytes}
    (sourceId : Option Uuid) (hnodup : (draws.ids ++ later).Nodup) :
    Isolated u later (fun db => ∀ id ∈ draws.ids, db.Unused id)
      (upload env draws u filename contentType data sourceId) fun _ _ => True := by
  refine isolated_bind (isolated_ofExcept _) fun mime => ?_
  refine isolated_bind (isolated_ofExcept _) fun _ => ?_
  refine isolated_bind (isolated_getByChecksum _) ?_
  rintro (_ | existing)
  · exact isolated_mono (isolated_storeNew sourceId hnodup) (fun db h => h.1.1.1) fun _ _ h => h
  · exact isolated_mono (isolated_duplicate existing) (fun db h => h.2 existing rfl)
      fun _ _ h => h

theorem isolated_retryDocument :
    Isolated u later P (retryDocument draws u id) fun _ _ => True := by
  refine isolated_bind isolated_getDocument ?_
  intro doc
  refine isolated_ite (fun _ => ?_) fun _ => isolated_throw _
  exact isolated_mono (isolated_restartFromFailedStage doc) (fun db h => h.2) fun _ _ h => h

theorem isolated_delete :
    Isolated u later P (deleteDocument draws u id) fun _ _ => True := by
  refine isolated_bind isolated_getDocument ?_
  intro doc
  refine isolated_bind (isolated_mono isolated_deleteDocument (fun db h => h.2) fun _ _ h => h) ?_
  intro _
  exact isolated_ite (fun _ => isolated_emit _) fun _ => isolated_pure fun _ h => h

theorem isolated_createConversation {title : Option Text} {modelAlias : Option String}
    (hnodup : (draws.ids ++ later).Nodup) :
    Isolated u later (fun db => ∀ id ∈ draws.ids, db.Unused id)
      (createConversation env draws u title modelAlias) fun _ _ => True := by
  obtain ⟨-, -, hdisjoint⟩ := List.nodup_append.mp hnodup
  have hrow : draws.rowId ∈ draws.ids := by simp [Draws.ids]
  refine isolated_ite (fun _ => ?_) fun _ => isolated_throw _
  refine isolated_bind (isolated_mono (isolated_insertConversation rfl
    fun hin => hdisjoint _ hrow _ hin rfl) (fun db h => h _ hrow) fun _ _ h => h) ?_
  intro ok
  exact isolated_ite (fun _ => isolated_pure fun _ h => h) fun _ => isolated_throw _

theorem isolated_renameConversation {title : Text} :
    Isolated u later P (renameConversation draws u id title) fun _ _ => True := by
  refine isolated_bind isolated_getConversation ?_
  intro conv
  refine isolated_ite (fun _ => isolated_pure fun _ _ => trivial) fun _ => ?_
  refine isolated_bind (isolated_mono isolated_updateConversation ?_ fun _ _ h => h)
    fun _ => isolated_pure fun _ h => h
  rintro db ⟨-, howns, rfl⟩
  exact howns

theorem isolated_deleteConversationCall :
    Isolated u later P (deleteConversation u id) fun _ _ => True := by
  refine isolated_bind isolated_getConversation ?_
  intro conv
  refine isolated_mono isolated_deleteConversation ?_ fun _ _ h => h
  rintro db ⟨-, howns, rfl⟩
  exact howns

/-- A page of messages, and the citations of messages, are in the user's view. -/
theorem messagePage_congr {localOffset : Datetime → Int} {limit : Nat} {cursor : Option Text}
    (hview : db₁.view u = db₂.view u) (h₁ : db₁.ownsConversation u id = true)
    (h₂ : db₂.ownsConversation u id = true) :
    messagePage localOffset db₁ id limit cursor = messagePage localOffset db₂ id limit cursor := by
  rw [messagePage, messagePage, messagesOf_view h₁, messagesOf_view h₂, hview]

theorem listForMessages_congr {ids : List Uuid} (hview : db₁.view u = db₂.view u)
    (h₁ : ∀ id ∈ ids, db₁.ownsMessage u id = true) (h₂ : ∀ id ∈ ids, db₂.ownsMessage u id = true) :
    listForMessages db₁ ids = listForMessages db₂ ids := by
  rw [listForMessages, listForMessages, citations_view h₁, citations_view h₂, hview]

/-- What stands on a page is in the conversation. -/
theorem ownsMessage_of_page {localOffset : Datetime → Int} {limit : Nat} {cursor : Option Text}
    {items : List MessageRow} {nextCursor : Option Text} (h : db.ownsConversation u id = true)
    (hpage : messagePage localOffset db id limit cursor = .ok (items, nextCursor)) :
    ∀ x ∈ items.map MessageRow.id, db.ownsMessage u x = true := by
  have hitems : ∀ m ∈ items, m ∈ messagesOf db id := Pagination.mem_of_listing hpage
  intro x hx
  obtain ⟨m, hm, rfl⟩ := List.mem_map.mp hx
  obtain ⟨hmem, hconv⟩ := Table.mem_select.mp (hitems m hm)
  exact ownsMessage_iff.mpr ⟨m, hmem, by rw [of_decide_eq_true hconv]; exact h, rfl⟩

/-- The citations of a page are those of messages of the user. -/
theorem isolated_listMessages {limit : Nat} {cursor : Option Text} :
    Isolated u later P (listMessages env u id limit cursor) fun _ _ => True := by
  refine isolated_bind isolated_getConversation ?_
  intro conv
  refine isolated_bind (isolated_query ?_) ?_
  · rintro db₁ db₂ hview ⟨-, h₁, -⟩ ⟨-, h₂, -⟩
    exact messagePage_congr hview h₁ h₂
  · intro page
    refine isolated_bind (isolated_ofExcept page) ?_
    rintro ⟨items, nextCursor⟩
    refine isolated_bind (isolated_query ?_) fun _ => isolated_pure fun _ _ => trivial
    rintro db₁ db₂ hview ⟨⟨⟨-, h₁, -⟩, hpage₁⟩, hok⟩ ⟨⟨⟨-, h₂, -⟩, hpage₂⟩, -⟩
    exact listForMessages_congr hview (ownsMessage_of_page h₁ (hpage₁.symm.trans hok))
      (ownsMessage_of_page h₂ (hpage₂.symm.trans hok))

theorem isolated_assertEachOwned (ids : List Uuid) :
    Isolated u later P (assertEachOwned u ids) fun _ db => P db := by
  induction ids with
  | nil => exact isolated_pure fun db h => h
  | cons id ids ih =>
    refine isolated_bind isolated_getOwnedSource ?_
    rintro (_ | source)
    · exact isolated_throw _
    · exact isolated_mono ih (fun db h => h.1) fun _ _ h => h

theorem isolated_resolve (modelAlias : String) :
    Isolated u later P (resolve env modelAlias) fun _ db => P db := by
  unfold resolve
  cases env.aliases modelAlias with
  | some params => exact isolated_pure fun db h => h
  | none =>
    cases env.aliases env.defaultAlias with
    | some params => exact isolated_pure fun db h => h
    | none => exact isolated_throw _

theorem isolated_prepareTurn {content : Text} {clientMessageId : Option Uuid}
    {sourceIds : Option (List Uuid)} (hnodup : (draws.ids ++ later).Nodup) :
    Isolated u later (fun db => ∀ id ∈ draws.ids, db.Unused id)
      (prepareTurn env draws u id content clientMessageId sourceIds) fun _ _ => True := by
  obtain ⟨-, -, hdisjoint⟩ := List.nodup_append.mp hnodup
  have hrow : draws.rowId ∈ draws.ids := by simp [Draws.ids]
  refine isolated_bind (isolated_transaction (Q := fun _ _ => True) ?_)
    fun _ => isolated_pure fun _ h => h
  refine isolated_bind (isolated_query ?_) ?_
  · intro db₁ db₂ hview _ _
    rw [getOwnedConversation_view, getOwnedConversation_view, hview]
  rintro (_ | conv)
  · exact isolated_throw _
  refine isolated_bind (isolated_assertEachOwned _) ?_
  intro _
  refine isolated_bind (isolated_insertMessage (fun db h => h.1 _ hrow) ?_
    fun hin => hdisjoint _ hrow _ hin rfl) ?_
  · rintro db ⟨-, hget⟩
    exact (ownsConversation_of_get hget.symm).1
  intro ok
  refine isolated_ite (fun _ => ?_) fun _ => isolated_throw _
  refine isolated_bind (isolated_query ?_) ?_
  · intro db₁ db₂ hview h₁ h₂
    have hrows : messagesOf db₁ id = messagesOf db₂ id := by
      rw [messagesOf_view h₁, messagesOf_view h₂, hview]
    simp only [messagesOf] at hrows
    simp only [listRecent, hrows]
  intro rows
  exact isolated_bind (isolated_resolve _) fun _ => isolated_pure fun _ _ => trivial

/-! ## 6. Any operation -/

/-- **One call.**  Every operation of a user keeps to the user's view. -/
theorem isolated_exec (env : Env) (operation : Operation) (hnodup : (draws.ids ++ later).Nodup) :
    Isolated u later (fun db => ∀ id ∈ draws.ids, db.Unused id) (operation.exec env draws u)
      fun _ _ => True := by
  have hdone : ∀ {γ : Type} {m : Op γ} {P : Db → Prop} (f : γ → Reply),
      Isolated u later P m (fun _ _ => True) →
      Isolated u later P (do let a ← m; pure (f a) : Op Reply) fun _ _ => True :=
    fun f hm => isolated_bind hm fun _ => isolated_pure fun _ h => h
  cases operation with
  | createConversation title modelAlias => exact hdone _ (isolated_createConversation hnodup)
  | getConversation id =>
    exact hdone _ (isolated_mono isolated_getConversation (fun _ h => h) fun _ _ _ => trivial)
  | listConversations limit cursor =>
    refine isolated_bind (isolated_query ?_) ?_
    · intro db₁ db₂ hview _ _
      rw [listConversations, listConversations, conversationsOf_view, conversationsOf_view, hview]
    · intro page
      exact isolated_bind (isolated_ofExcept page) fun _ => isolated_pure fun _ _ => trivial
  | renameConversation id title => exact hdone _ isolated_renameConversation
  | deleteConversation id => exact hdone (fun _ => .done) isolated_deleteConversationCall
  | listMessages id limit cursor =>
    exact hdone (fun r => .messages r.1 r.2.1 r.2.2) isolated_listMessages
  | upload filename contentType data sourceId =>
    exact hdone (fun r => .uploaded r.1 r.2) (isolated_upload sourceId hnodup)
  | getDocument id =>
    exact hdone _ (isolated_mono isolated_getDocument (fun _ h => h) fun _ _ _ => trivial)
  | listDocuments limit cursor status =>
    refine isolated_bind (isolated_query ?_) ?_
    · intro db₁ db₂ hview _ _
      rw [listDocuments, listDocuments, documentsOf_view, documentsOf_view, hview]
    · intro page
      exact isolated_bind (isolated_ofExcept page) fun _ => isolated_pure fun _ _ => trivial
  | retryDocument id => exact hdone _ isolated_retryDocument
  | deleteDocument id => exact hdone (fun _ => .done) isolated_delete
  | prepareTurn id content clientMessageId sourceIds =>
    exact hdone _ (isolated_prepareTurn hnodup)

/-- A call of a service, with what it draws. -/
structure Call where
  operation : Operation
  draws : Draws

def Call.exec (env : Env) (userId : Uuid) (call : Call) : Op Reply :=
  call.operation.exec env call.draws userId

/-- The ids that calls draw. -/
def idsOf (calls : List Call) : List Uuid := calls.flatMap fun call => call.draws.ids

/-- Worlds that look the same to a user before calls that draw new ids. -/
def SameBefore (userId : Uuid) (calls : List Call) (w₁ w₂ : World) : Prop :=
  (idsOf calls).Nodup ∧ SameTo userId (idsOf calls) w₁ w₂

/-- One call from worlds that look the same. -/
theorem sameBefore_step {call : Call} {rest : List Call} {w₁ w₂ : World}
    (h : SameBefore u (call :: rest) w₁ w₂) :
    (run (call.exec env u) w₁).1 = (run (call.exec env u) w₂).1 ∧
      SameBefore u rest (run (call.exec env u) w₁).2 (run (call.exec env u) w₂).2 ∧
      OthersKept u w₁ (run (call.exec env u) w₁).2 ∧
      OthersKept u w₂ (run (call.exec env u) w₂).2 := by
  obtain ⟨hnodup, hsame⟩ := h
  have hids : idsOf (call :: rest) = call.draws.ids ++ idsOf rest := List.flatMap_cons
  rw [hids] at hnodup hsame
  have hrest : SameTo u (idsOf rest) w₁ w₂ :=
    ⟨hsame.effects, hsame.view, fun x hx => hsame.unused₁ x (List.mem_append_right _ hx),
      fun x hx => hsame.unused₂ x (List.mem_append_right _ hx)⟩
  have hruns := isolated_exec env call.operation hnodup w₁ w₂ hrest
    (fun x hx => hsame.unused₁ x (List.mem_append_left _ hx))
    (fun x hx => hsame.unused₂ x (List.mem_append_left _ hx))
  exact ⟨hruns.result, ⟨(List.nodup_append.mp hnodup).2.1, hruns.same⟩, hruns.frame₁, hruns.frame₂⟩

/-! ## 7. Without everybody else -/

/-- The database with the rows of one user, and no others. -/
def Db.only (db : Db) (userId : Uuid) : Db where
  conversations := db.conversations.delete fun c => !decide (c.userId = userId)
  messages := db.messages.delete fun m => !db.ownsConversation userId m.conversationId
  citations := db.citations.delete fun c => !db.ownsMessage userId c.messageId
  sources := db.sources.delete fun s => !decide (s.ownerId = userId)
  documents := db.documents.delete fun d => !decide (d.uploadedBy = userId)
  jobs := db.jobs.delete fun j => !db.ownsDocument userId j.documentId
  messages_fk := by
    intro m hm
    obtain ⟨-, howns⟩ := List.mem_filter.mp hm
    obtain ⟨c, hc, hu, hid⟩ := ownsConversation_iff.mp (by simpa using howns)
    exact ⟨c, List.mem_filter.mpr ⟨hc, by simpa using hu⟩, hid⟩
  citations_fk := by
    intro c hc
    obtain ⟨-, howns⟩ := List.mem_filter.mp hc
    obtain ⟨m, hm, hu, hid⟩ := ownsMessage_iff.mp (by simpa using howns)
    exact ⟨m, List.mem_filter.mpr ⟨hm, by simpa using hu⟩, hid⟩
  jobs_fk := by
    intro j hj
    obtain ⟨-, howns⟩ := List.mem_filter.mp hj
    obtain ⟨d, hd, hu, hid⟩ := ownsDocument_iff.mp (by simpa using howns)
    exact ⟨d, List.mem_filter.mpr ⟨hd, by simpa using hu⟩, hid⟩

theorem only_view : (db.only u).view u = db.view u := by
  have hconversation : ∀ x, (db.only u).ownsConversation u x = db.ownsConversation u x := by
    intro x
    rw [Bool.eq_iff_iff, ownsConversation_iff, ownsConversation_iff]
    simp only [Db.only, Table.delete, List.mem_filter, Bool.not_not, decide_eq_true_eq]
    constructor
    · rintro ⟨c, ⟨hc, -⟩, hu, hid⟩
      exact ⟨c, hc, hu, hid⟩
    · rintro ⟨c, hc, hu, hid⟩
      exact ⟨c, ⟨hc, hu⟩, hu, hid⟩
  have hmessage : ∀ x, (db.only u).ownsMessage u x = db.ownsMessage u x := by
    intro x
    rw [Bool.eq_iff_iff, ownsMessage_iff, ownsMessage_iff]
    simp only [hconversation]
    simp only [Db.only, Table.delete, List.mem_filter, Bool.not_not]
    constructor
    · rintro ⟨m, ⟨hm, -⟩, hu, hid⟩
      exact ⟨m, hm, hu, hid⟩
    · rintro ⟨m, hm, hu, hid⟩
      exact ⟨m, ⟨hm, hu⟩, hu, hid⟩
  have hdocument : ∀ x, (db.only u).ownsDocument u x = db.ownsDocument u x := by
    intro x
    rw [Bool.eq_iff_iff, ownsDocument_iff, ownsDocument_iff]
    simp only [Db.only, Table.delete, List.mem_filter, Bool.not_not, decide_eq_true_eq]
    constructor
    · rintro ⟨d, ⟨hd, -⟩, hu, hid⟩
      exact ⟨d, hd, hu, hid⟩
    · rintro ⟨d, hd, hu, hid⟩
      exact ⟨d, ⟨hd, hu⟩, hu, hid⟩
  refine View.eq_of ?_ ?_ ?_ ?_ ?_ ?_
  · simp [Db.view, Db.only, Table.delete, Table.select]
  · simp only [Db.view, hconversation]
    simp [Db.only, Table.delete, Table.select]
  · simp only [Db.view, hmessage]
    simp [Db.only, Table.delete, Table.select]
  · simp [Db.view, Db.only, Table.delete, Table.select]
  · simp only [Db.view, hdocument]
    simp [Db.only, Table.delete, Table.select]
  · simp [Db.view, Db.only, Table.delete, Table.select]

theorem unused_only {x : Uuid} (h : db.Unused x) : (db.only u).Unused x := by
  obtain ⟨h₁, h₂, h₃, h₄, h₅, h₆⟩ := h
  exact ⟨fun r hr => h₁ r (List.mem_filter.mp hr).1, fun r hr => h₂ r (List.mem_filter.mp hr).1,
    fun r hr => h₃ r (List.mem_filter.mp hr).1, fun r hr => h₄ r (List.mem_filter.mp hr).1,
    fun r hr => h₅ r (List.mem_filter.mp hr).1, fun r hr => h₆ r (List.mem_filter.mp hr).1⟩

/-! ## 8. Isolation -/

/-- **Isolation of owners.**  From two databases that agree on a user's view, any sequence of the
user's calls, with the same new ids and the same clock, gives the same results and errors and the
same effects, and leaves databases that agree on the view; no other user's view changes.  And the
results are those on a database that has nothing but the user's rows. -/
theorem owners_isolated (env : Env) (u : Uuid) (calls : List Call) (db₁ db₂ : Db)
    (hview : db₁.view u = db₂.view u) (hnew : (idsOf calls).Nodup)
    (hunused : ∀ id ∈ idsOf calls, db₁.Unused id ∧ db₂.Unused id) :
    let after := fun db : Db => runAll (calls.map (Call.exec env u)) ⟨db, []⟩
    (after db₁).1 = (after db₂).1 ∧ (after db₁).2.effects = (after db₂).2.effects ∧
      (after db₁).2.db.view u = (after db₂).2.db.view u ∧
      (∀ v, v ≠ u → (after db₁).2.db.view v = db₁.view v ∧ (after db₂).2.db.view v = db₂.view v) ∧
      (after db₁).1 = (after (db₁.only u)).1 := by
  intro after
  have hstep : ∀ call rest w₁ w₂, SameBefore u (call :: rest) w₁ w₂ →
      (run (Call.exec env u call) w₁).1 = (run (Call.exec env u call) w₂).1 ∧
        SameBefore u rest (run (Call.exec env u call) w₁).2 (run (Call.exec env u call) w₂).2 ∧
        OthersKept u w₁ (run (Call.exec env u call) w₁).2 ∧
        OthersKept u w₂ (run (Call.exec env u call) w₂).2 :=
    fun call rest w₁ w₂ h => sameBefore_step h
  have hall : ∀ db db' : Db, db.view u = db'.view u →
      (∀ id ∈ idsOf calls, db.Unused id ∧ db'.Unused id) →
      (after db).1 = (after db').1 ∧ SameBefore u [] (after db).2 (after db').2 ∧
        OthersKept u ⟨db, []⟩ (after db).2 ∧ OthersKept u ⟨db', []⟩ (after db').2 := by
    intro db db' hsame hfree
    refine runAll_of_step (fun _ _ _ => rfl) (fun h h' v hv => (h' v hv).trans (h v hv)) hstep ?_
    exact ⟨hnew, rfl, hsame, fun x hx => (hfree x hx).1, fun x hx => (hfree x hx).2⟩
  obtain ⟨hresults, ⟨-, hsame⟩, hothers₁, hothers₂⟩ := hall db₁ db₂ hview hunused
  obtain ⟨honly, -⟩ := hall db₁ (db₁.only u) only_view.symm
    fun x hx => ⟨(hunused x hx).1, unused_only (hunused x hx).1⟩
  exact ⟨hresults, hsame.effects, hsame.view, fun v hv => ⟨hothers₁ v hv, hothers₂ v hv⟩, honly⟩

/-! ### A call on somebody else's conversation -/

def sampleEnv : Env where
  localOffset _ := 0
  sha256 data := data.map fun b => Char.ofNat b.toNat
  lower text := text.map Char.toLower
  defaultAlias := "default"
  aliases _ := some { model := "m" }
  historyLimit := 20
  systemPrompt := []

def sampleInstant : Timestamp := sampleTime 1 first_day

def sampleConversation (id userId : Uuid) : ConversationRow where
  id := id
  userId := userId
  modelAlias := "default"
  createdAt := sampleInstant
  updatedAt := sampleInstant

def sampleDraws (id : Uuid) : Draws where
  rowId := id
  sourceId := id + 1
  assistantMessageId := id + 2
  now _ := sampleInstant
  stores := true
  enqueues := true

/-- User 1 has conversation 10, user 2 has conversation 20, or there is no user 2. -/
def sampleDb (rows : List ConversationRow)
    (sorted : rows.Pairwise fun a b => a.id < b.id) : Db :=
  { Db.empty with
    conversations := ⟨rows, sorted⟩
    messages_fk := fun _ h => absurd h List.not_mem_nil }

def sampleCalls : List Call :=
  [⟨.getConversation 20, sampleDraws 100⟩, ⟨.renameConversation 10 ['t'], sampleDraws 200⟩,
    ⟨.deleteConversation 20, sampleDraws 300⟩]

theorem owners_isolated_foreign :
    let shared := sampleDb [sampleConversation 10 1, sampleConversation 20 2] (by decide)
    let alone := sampleDb [sampleConversation 10 1] (by decide)
    let after := fun db : Db => runAll (sampleCalls.map (Call.exec sampleEnv 1)) ⟨db, []⟩
    (after shared).1 = (after alone).1 ∧ (after shared).2.db.view 2 = shared.view 2 := by
  intro shared alone after
  have hnew : (idsOf sampleCalls).Nodup := by decide
  have hids : ∀ id ∈ idsOf sampleCalls, (10 : Uuid) ≠ id ∧ (20 : Uuid) ≠ id := by
    simpa using (by decide : ((idsOf sampleCalls).all fun id => 10 ≠ id ∧ 20 ≠ id) = true)
  have hshared : ∀ id ∈ idsOf sampleCalls, ∀ r ∈ shared.conversations.rows, r.id ≠ id := by
    intro id hid
    exact List.forall_mem_cons.mpr ⟨(hids id hid).1, List.forall_mem_singleton.mpr (hids id hid).2⟩
  have halone : ∀ id ∈ idsOf sampleCalls, ∀ r ∈ alone.conversations.rows, r.id ≠ id :=
    fun id hid => List.forall_mem_singleton.mpr (hids id hid).1
  have hunused : ∀ id ∈ idsOf sampleCalls, shared.Unused id ∧ alone.Unused id := by
    intro id hid
    have hnone : ∀ {ρ : Type} (f : ρ → Uuid), ∀ r ∈ ([] : List ρ), f r ≠ id :=
      fun f r hr => absurd hr List.not_mem_nil
    exact ⟨⟨hshared id hid, hnone _, hnone _, hnone _, hnone _, hnone _⟩,
      ⟨halone id hid, hnone _, hnone _, hnone _, hnone _, hnone _⟩⟩
  have h := owners_isolated sampleEnv 1 sampleCalls shared alone rfl hnew hunused
  exact ⟨h.1, (h.2.2.2.1 2 (by decide)).1⟩

end AtlasKnowledge.Services
