/-
# One document for one file

Any number of users upload, retry and delete at the same time, with anything that may go wrong
between two statements (`UploadSystem.lean`).

* `step_ok`, `run_ok`: the shared invariant and what every call knows at its place;
* `one_document`: whoever uploads a file is answered with the one document of that file, at most one
  call has made it, and an insert that waits for its commit never clashes there.
-/
import AtlasKnowledge.Services.UploadInvariant

namespace AtlasKnowledge.Services.UploadSystem

open Interleave Transition
open Pagination (Timestamp)
open Pipeline (Stage DocStatus)
open Upload (Storage Exc safeName storageKey document)

/-- A statement of a call has kept the shared invariant and what the others rely on, and the call
stands where it knows what `K` says. -/
structure Good (env : Env) (own ownSource : Option Uuid) (K : Shared → Pc → Prop) (w : Shared)
    (r : Shared × Pc) : Prop where
  ok : r.1.Ok env
  knows : K r.1 r.2
  rely : Rely own ownSource w r.1

section Steps

variable {env : Env} {own ownSource : Option Uuid} {w w' : Shared} {pc pc' : Pc} {c : Choice}
  {userId newSourceId documentId : Uuid} {call : Upload.Call} {doc row : DocumentRow}
  {mime : String}
  {K : Shared → Pc → Prop} {earlier : List DocumentRow}

/-- A query changes nothing. -/
theorem Good.query (h : w.Ok env) (hknows : K w pc') : Good env own ownSource K w (w, pc') :=
  ⟨h, hknows, .refl⟩

theorem Good.imp {K' : Shared → Pc → Prop} {r : Shared × Pc}
    (hK : ∀ w pc, K w pc → K' w pc) (h : Good env own ownSource K w r) :
    Good env own ownSource K' w r :=
  ⟨h.ok, hK _ _ h.knows, h.rely⟩

/-! ## 1. Restarting and enqueueing -/

/-- The row that `refresh` reads is the document's. -/
theorem fixed_of_selectOne (h : w.Ok env) (hknown : w.Known doc)
    (hrow : (w.db.documents.selectOne fun d => d.id = doc.id) = some row) :
    fixed row = fixed doc := by
  obtain ⟨hmem, hid⟩ := Table.selectOne_some hrow
  have hid : row.id = doc.id := of_decide_eq_true hid
  obtain ⟨old, hold | hold, hfixed⟩ := hknown
  · have hsame : old = row := Table.eq_of_key hold hmem ((fixed_id hfixed).trans hid.symm)
    exact hsame ▸ hfixed
  · exact absurd (hid.trans (fixed_id hfixed).symm) (h.gone old hold row hmem)

/-- What may be said of a document in hand: it is known, it rests on the columns that stay, and no
step of anyone takes it back. -/
structure Lasting (Q : Shared → DocumentRow → Bool → Prop) : Prop where
  known : ∀ {w doc b}, Q w doc b → w.Known doc
  fixed : ∀ {w doc row b}, fixed row = fixed doc → Q w doc b → Q w row b
  mono : ∀ {own ownSource w w' doc b}, Rely own ownSource w w' → Q w doc b → Q w' doc b

variable {Q : Shared → DocumentRow → Bool → Prop} {b : Bool}

theorem written_good (h : w.Ok env) {status : DocStatus} {error : Option String} {now : Timestamp}
    (hnext : ∀ w', Rely own ownSource w w' → pc'.Carries (Q w')) :
    Good env own ownSource (fun w pc => pc.Carries (Q w)) w
      (written w doc status error now pc') := by
  unfold written
  split
  · exact .query h (hnext w .refl)
  · split
    · exact ⟨update_ok h, hnext _ update_rely, update_rely⟩
    · exact .query h (by simp [Pc.Carries])

theorem refreshed_good (hQ : Lasting Q) (h : w.Ok env) (hdoc : Q w doc b) {next : DocumentRow → Pc}
    (hnext : ∀ row, Q w row b → (next row).Carries (Q w)) :
    Good env own ownSource (fun w pc => pc.Carries (Q w)) w (w, refreshed w doc next) := by
  refine .query h ?_
  unfold refreshed
  split
  · rename_i row hrow
    exact hnext row (hQ.fixed (fixed_of_selectOne h (hQ.known hdoc) hrow) hdoc)
  · simp [Pc.Carries]

/-- `_restart_from_failed_stage` and `_enqueue_stage` keep what is said of the document. -/
theorem restartStep_good (hQ : Lasting Q) (h : w.Ok env) (hcarries : pc.Carries (Q w))
    {r : Shared × Pc} (hstep : restartStep w pc c = some r) :
    Good env own ownSource (fun w pc => pc.Carries (Q w)) w r := by
  unfold restartStep at hstep
  split at hstep <;> cases hstep
  · exact .query h hcarries
  · exact written_good h fun _ hrely => hQ.mono hrely hcarries
  · exact written_good h fun _ _ => by simp [Pc.Carries]
  · exact refreshed_good hQ h hcarries fun _ hrow => hrow
  · exact .query h hcarries
  · exact .query h hcarries
  · exact written_good h fun _ hrely => hQ.mono hrely hcarries
  · exact written_good h fun _ _ => by simp [Pc.Carries]
  · exact refreshed_good hQ h hcarries fun _ hrow => hrow

theorem uploaded_lasting : Lasting fun w => Uploaded env w userId call where
  known h := h.1
  fixed hfixed h := by
    obtain ⟨⟨old, hold, hsame⟩, howner, hchecksum, hnew⟩ := h
    exact ⟨⟨old, hold, hsame.trans hfixed.symm⟩, (fixed_owner hfixed).trans howner,
      (fixed_checksum hfixed).trans hchecksum, fun hb => (fixed_id hfixed).trans (hnew hb)⟩
  mono hrely h := Uploaded.mono hrely h

theorem requested_lasting : Lasting fun w doc _ => Requested w userId documentId doc where
  known h := h.1
  fixed hfixed h := by
    obtain ⟨⟨old, hold, hsame⟩, howner, hid⟩ := h
    exact ⟨⟨old, hold, hsame.trans hfixed.symm⟩, (fixed_owner hfixed).trans howner,
      (fixed_id hfixed).trans hid⟩
  mono hrely h := Requested.mono hrely h

/-! ## 2. The queries of an upload -/

/-- The user's document with this checksum answers the call. -/
theorem found_carries
    (hfound : getByChecksum w.db userId (env.sha256 call.data) = some row) :
    (resetIfFailed row).Carries (Uploaded env w userId call) := by
  obtain ⟨hmem, hmatch⟩ := Table.selectOne_some hfound
  obtain ⟨howner, hchecksum⟩ := Bool.and_eq_true_iff.mp hmatch
  have huploaded : Uploaded env w userId call row true :=
    ⟨⟨row, .inl hmem, rfl⟩, of_decide_eq_true howner, of_decide_eq_true hchecksum,
      fun hb => absurd hb (by simp)⟩
  unfold resetIfFailed
  split <;> exact huploaded

theorem enterUpload_knows (hunborn : w.Unborn call.documentId)
    (hsource : w.SourceUnborn newSourceId) :
    UploadKnows env w userId call newSourceId earlier (enterUpload env userId call w) := by
  unfold enterUpload
  split
  · exact fun he => absurd he (by simp)
  · split
    · exact fun he => absurd he (by simp)
    · split
      · rename_i hfound
        exact .of_carries (found_carries hfound)
      · exact ⟨hunborn, hsource⟩

theorem sourceOf_default {source : SourceRow}
    (hfound : getDefaultSource w.db userId = some source) : w.SourceOf userId source.id := by
  obtain ⟨hmem, hmatch⟩ := Table.selectOne_some hfound
  exact ⟨source, hmem, rfl, of_decide_eq_true (Bool.and_eq_true_iff.mp hmatch).1⟩

theorem resolveSource_knows (hunborn : w.Unborn call.documentId)
    (hsource : w.SourceUnborn newSourceId) :
    UploadKnows env w userId call newSourceId earlier (resolveSource userId call w mime) := by
  unfold resolveSource
  split
  · split
    · rename_i hfound
      obtain ⟨hmem, hmatch⟩ := Table.selectOne_some hfound
      exact ⟨hunborn, _, hmem, rfl, of_decide_eq_true (Bool.and_eq_true_iff.mp hmatch).1⟩
    · exact fun he => absurd he (by simp)
  · split
    · rename_i hfound
      exact ⟨hunborn, sourceOf_default hfound⟩
    · exact ⟨hunborn, hsource⟩

/-- After a clash the user's default source is found. -/
theorem fallBack_knows (hunborn : w.Unborn call.documentId) (hdefault : w.HasDefault userId) :
    UploadKnows env w userId call newSourceId earlier (fallBack userId w mime) := by
  unfold fallBack
  split
  · rename_i hfound
    exact ⟨hunborn, sourceOf_default hfound⟩
  · rename_i hnone
    obtain ⟨s, hs, howner, htype⟩ := hdefault
    have hsome : (w.db.sources.rows.find? fun s =>
        s.ownerId = userId && s.type = defaultSourceType).isSome = true :=
      List.find?_isSome.mpr ⟨s, hs, by simp [howner, htype]⟩
    rw [getDefaultSource, Table.selectOne] at hnone
    simp [hnone] at hsome

/-- After a clash the document is found, unless it was deleted. -/
theorem recheck_knows (htaken : w.Taken earlier userId (env.sha256 call.data)) :
    UploadKnows env w userId call newSourceId earlier (recheck env userId call w) := by
  unfold recheck
  split
  · rename_i hfound
    exact .of_carries (found_carries hfound)
  · rename_i hnone
    intro _
    obtain ⟨row, hrow | hrow, hnew, howner, hchecksum⟩ := htaken
    · have hsome : (w.db.documents.rows.find? fun d =>
          d.uploadedBy = userId && d.checksum = env.sha256 call.data).isSome = true :=
        List.find?_isSome.mpr ⟨row, hrow, by simp [howner, hchecksum]⟩
      rw [getByChecksum, Table.selectOne] at hnone
      simp [hnone] at hsome
    · exact ⟨row, hrow, hnew, howner, hchecksum⟩

/-! ## 3. The commits of an upload -/

/-- A source enters the table, and no other open transaction holds the owner's. -/
theorem insertSource_ok (h : w.Ok env) {source : SourceRow} {db : Db}
    (hinsert : w.db.insertSource? source = some db) (hdefault : source.type = defaultSourceType)
    (hfree : ∀ s ∈ w.pendingSources, s.ownerId ≠ source.ownerId) :
    ({ w with db := db } : Shared).Ok env := by
  obtain ⟨hnone, hmem, hdocuments⟩ := insertSource_some hinsert hdefault
  constructor
  case default =>
    intro a ha b hb hta htb howner
    rcases (hmem a).mp ha with rfl | ha <;> rcases (hmem b).mp hb with rfl | hb
    · rfl
    · exact absurd ⟨b, hb, howner.symm, htb⟩ hnone
    · exact absurd ⟨a, ha, howner, hta⟩ hnone
    · exact h.default a ha b hb hta htb howner
  case pendingSource =>
    rintro s hs ⟨row, hrow, howner, htype⟩
    rcases (hmem row).mp hrow with rfl | hold
    · exact hfree s hs howner.symm
    · exact h.pendingSource s hs ⟨row, hold, howner, htype⟩
  case source =>
    intro row hrow
    obtain ⟨s, hs, hmatch⟩ := h.source row (hdocuments ▸ hrow)
    exact ⟨s, (hmem s).mpr (.inr hs), hmatch⟩
  case unique => exact hdocuments ▸ h.unique
  case pending => exact hdocuments ▸ h.pending
  case pendings => exact h.pendings
  case pendingSources => exact h.pendingSources
  case key => exact hdocuments ▸ h.key
  case stored => exact hdocuments ▸ h.stored
  case gone => exact hdocuments ▸ h.gone
  case purges => exact h.purges

theorem insertSource_rely {source : SourceRow} {db : Db}
    (hinsert : w.db.insertSource? source = some db) (hdefault : source.type = defaultSourceType)
    (hown : some source.id = ownSource) : Rely own ownSource w { w with db := db } := by
  obtain ⟨-, hmem, hdocuments⟩ := insertSource_some hinsert hdefault
  have hhad : ∀ row, ({ w with db := db } : Shared).Had row ↔ w.Had row := by
    intro row
    simp only [Shared.Had, hdocuments]
  exact
    { had := fun row hrow => ⟨row, (hhad row).mpr hrow, rfl⟩
      deleted := fun _ hrow => hrow
      born := fun row hrow => .inl ⟨row, (hhad row).mp hrow, rfl⟩
      sources := fun s hs => (hmem s).mpr (.inr hs)
      sourceBorn := fun s hs => ((hmem s).mp hs).elim (fun heq => .inr (heq ▸ hown)) .inl
      stored := fun _ _ _ _ => rfl
      pending := fun _ hd _ => hd
      pendingSource := fun _ hs _ => hs }

/-- A document enters the table, with its file in the storage. -/
theorem insertDocument_ok (h : w.Ok env) {db : Db} (hinsert : w.db.insertDocument? doc = some db)
    (hunborn : w.Unborn doc.id)
    (hfree : ∀ d ∈ w.pendingDocuments,
      ¬ (d.uploadedBy = doc.uploadedBy ∧ d.checksum = doc.checksum))
    (hsource : w.SourceOf doc.uploadedBy doc.sourceId)
    (hkey : ∃ suffix, doc.storageKey = originalKey doc.id suffix) (hstored : w.Stored env doc) :
    ({ w with db := db } : Shared).Ok env := by
  obtain ⟨hnone, hmem, hsources⟩ := insertDocument_some hinsert
  have hforall : ∀ {P : DocumentRow → Prop}, P doc → (∀ row ∈ w.db.documents.rows, P row) →
      ∀ row ∈ db.documents.rows, P row := by
    intro P hdoc hrows row hrow
    rcases (hmem row).mp hrow with rfl | hold
    · exact hdoc
    · exact hrows row hold
  constructor
  case unique =>
    intro a ha b hb howner hchecksum
    rcases (hmem a).mp ha with rfl | ha <;> rcases (hmem b).mp hb with rfl | hb
    · rfl
    · exact absurd ⟨howner.symm, hchecksum.symm⟩ (hnone b hb)
    · exact absurd ⟨howner, hchecksum⟩ (hnone a ha)
    · exact h.unique a ha b hb howner hchecksum
  case pending =>
    exact fun d hd => hforall (fun hmatch => hfree d hd ⟨hmatch.1.symm, hmatch.2.symm⟩)
      (h.pending d hd)
  case source =>
    have hold : ∀ {userId id : Uuid}, w.SourceOf userId id →
        ({ w with db := db } : Shared).SourceOf userId id := by
      rintro userId id ⟨s, hs, hmatch⟩
      exact ⟨s, hsources ▸ hs, hmatch⟩
    exact hforall (hold hsource) fun row hrow => hold (h.source row hrow)
  case key => exact hforall hkey h.key
  case stored => exact hforall hstored h.stored
  case gone => exact fun row hrow => hforall (Ne.symm (hunborn row (.inr hrow))) (h.gone row hrow)
  case default => exact hsources ▸ h.default
  case pendingSource =>
    rintro s hs ⟨row, hrow, hmatch⟩
    exact h.pendingSource s hs ⟨row, hsources ▸ hrow, hmatch⟩
  case pendings => exact h.pendings
  case pendingSources => exact h.pendingSources
  case purges => exact h.purges

theorem insertDocument_rely {db : Db} (hinsert : w.db.insertDocument? doc = some db)
    (hown : some doc.id = own) : Rely own ownSource w { w with db := db } := by
  obtain ⟨-, hmem, hsources⟩ := insertDocument_some hinsert
  constructor
  case had =>
    rintro row (hrow | hrow)
    · exact ⟨row, .inl ((hmem row).mpr (.inr hrow)), rfl⟩
    · exact ⟨row, .inr hrow, rfl⟩
  case born =>
    rintro row (hrow | hrow)
    · rcases (hmem row).mp hrow with rfl | hold
      · exact .inr hown
      · exact .inl ⟨row, .inl hold, rfl⟩
    · exact .inl ⟨row, .inr hrow, rfl⟩
  case sources => exact fun _ hs => hsources ▸ hs
  case sourceBorn => exact fun _ hs => .inl (hsources ▸ hs)
  case deleted => exact fun _ hrow => hrow
  case stored => exact fun _ _ _ _ => rfl
  case pending => exact fun _ hd _ => hd
  case pendingSource => exact fun _ hs _ => hs

theorem Rely.trans {w'' : Shared} (h : Rely own ownSource w w') (h' : Rely own ownSource w' w'')
    : Rely own ownSource w w'' where
  had row hrow := h'.known (h.had row hrow)
  deleted row hrow := h'.deleted row (h.deleted row hrow)
  born row hrow := by
    rcases h'.born row hrow with ⟨old, hold, hid⟩ | hown
    · exact (h.born old hold).imp (fun ⟨first, hfirst, hsame⟩ => ⟨first, hfirst, hsame.trans hid⟩)
        fun hown => hid ▸ hown
    · exact .inr hown
  sources s hs := h'.sources s (h.sources s hs)
  sourceBorn s hs := (h'.sourceBorn s hs).elim (h.sourceBorn s) .inr
  stored id suffix hid hne :=
    (h'.stored id suffix (h.unborn hid hne) hne).trans (h.stored id suffix hid hne)
  pending d hd hne := h'.pending d (h.pending d hd hne) hne
  pendingSource s hs hne := h'.pendingSource s (h.pendingSource s hs hne) hne

/-- What an upload knows, as a predicate of the shared state and the place. -/
abbrev Own (env : Env) (userId : Uuid) (call : Upload.Call) (newSourceId : Uuid)
    (earlier : List DocumentRow) : Shared → Pc → Prop :=
  fun w => UploadKnows env w userId call newSourceId earlier

/-- **The commit of a source does not clash**: the insert before it has kept all others waiting. -/
theorem commitSource_good (h : w.Ok env) {source : SourceRow}
    (hknows : UploadKnows env w userId call newSourceId earlier (.committingSource mime source))
    (next : Pc)
    (hnext : ∀ w', w'.Unborn call.documentId → w'.SourceOf userId source.id →
      UploadKnows env w' userId call newSourceId earlier next) :
    (commitSource call newSourceId w mime source next).2 = next ∧
    Good env (some call.documentId) (some newSourceId) (Own env userId call newSourceId earlier) w
      (commitSource call newSourceId w mime source next) := by
  obtain ⟨hunborn, hsource, hpending, hid, howner, htype⟩ := hknows
  cases hinsert : w.db.insertSource? source with
  | none =>
    have hdefault := insertSource_none hinsert (hid ▸ hsource)
    exact absurd hdefault (h.pendingSource source hpending)
  | some db =>
    have hinsert' : (w.release call.documentId newSourceId).db.insertSource? source = some db :=
      hinsert
    have hfree : ∀ s ∈ (w.release call.documentId newSourceId).pendingSources,
        s.ownerId ≠ source.ownerId := by
      intro s hs hsame
      obtain ⟨hs, hne⟩ := List.mem_filter.mp hs
      obtain rfl := h.pendingSources s hs source hpending hsame
      simp [hid] at hne
    have hrely := (release_rely (w := w) call.documentId newSourceId).trans
      (insertSource_rely hinsert' htype (congrArg some hid))
    have hmem := (insertSource_some hinsert' htype).2.1
    have hdocuments := (insertSource_some hinsert' htype).2.2
    simp only [commitSource, hinsert]
    refine ⟨trivial, insertSource_ok (release_ok h _ _) hinsert' htype hfree, hnext _ ?_ ?_, hrely⟩
    · intro row hrow
      exact hunborn row (hrow.imp_left fun hrow => hdocuments ▸ hrow)
    · exact ⟨source, (hmem source).mpr (.inl rfl), rfl, howner⟩

/-- **The commit of a document does not clash** either. -/
theorem commitDocument_good (h : w.Ok env)
    (hknows : UploadKnows env w userId call newSourceId earlier (.committing doc)) (next : Pc)
    (hnext : ∀ w', Uploaded env w' userId call doc false →
      UploadKnows env w' userId call newSourceId earlier next) :
    (commitDocument call newSourceId w doc next).2 = next ∧
    Good env (some call.documentId) (some newSourceId) (Own env userId call newSourceId earlier) w
      (commitDocument call newSourceId w doc next) := by
  obtain ⟨hunborn, ⟨mime, sourceId, rfl, hsource⟩, hfile, hpending⟩ := hknows
  set doc := document env userId call sourceId mime with hdoc
  cases hinsert : w.db.insertDocument? doc with
  | none =>
    obtain ⟨row, hrow, hmatch⟩ := insertDocument_none hinsert hunborn
    exact absurd hmatch (h.pending doc hpending row hrow)
  | some db =>
    have hinsert' : (w.release call.documentId newSourceId).db.insertDocument? doc = some db :=
      hinsert
    have hfree : ∀ d ∈ (w.release call.documentId newSourceId).pendingDocuments,
        ¬ (d.uploadedBy = doc.uploadedBy ∧ d.checksum = doc.checksum) := by
      rintro d hd ⟨howner, hchecksum⟩
      obtain ⟨hd, hne⟩ := List.mem_filter.mp hd
      obtain rfl := h.pendings d hd doc hpending howner hchecksum
      simp [hdoc, document] at hne
    have hrely := (release_rely (w := w) call.documentId newSourceId).trans
      (insertDocument_rely hinsert' rfl)
    have hmem := (insertDocument_some hinsert').2.1
    simp only [commitDocument, hinsert]
    refine ⟨trivial, insertDocument_ok (release_ok h _ _) hinsert' hunborn hfree hsource
      ⟨_, storageKey_eq env call⟩ ⟨call.data, hfile, rfl, rfl⟩, hnext _ ?_, hrely⟩
    exact ⟨⟨doc, .inl ((hmem doc).mpr (.inl rfl)), rfl⟩, rfl, rfl, fun _ => rfl⟩

/-! ## 4. One step of a call -/

theorem createSource_good (h : w.Ok env) {now : Timestamp} {r : Shared × Pc}
    (hknows : UploadKnows env w userId call newSourceId earlier (.creatingSource mime))
    (hstep : createSource userId newSourceId w mime now = some r) :
    Good env own ownSource (Own env userId call newSourceId earlier) w r := by
  obtain ⟨hunborn, hsource⟩ := hknows
  simp only [createSource] at hstep
  set source : SourceRow :=
    { id := newSourceId, ownerId := userId, name := defaultSourceName, type := defaultSourceType,
      createdAt := now, updatedAt := now } with hrow
  split at hstep
  · cases hstep
  · rename_i hfree
    have hfree : w.blocksSource source = false := Bool.eq_false_iff.mpr hfree
    split at hstep <;> cases hstep
    · rename_i db hinsert
      exact ⟨holdSource_ok h hfree (insertSource_some hinsert rfl).1,
        ⟨hunborn, hsource, List.mem_cons_self, rfl, rfl, rfl⟩, holdSource_rely⟩
    · rename_i hnone
      exact .query h ⟨hunborn, insertSource_none hnone hsource⟩

theorem createDocument_good (h : w.Ok env) {r : Shared × Pc}
    (hearlier : ∀ row ∈ earlier, row ∈ w.deleted)
    (hknows : UploadKnows env w userId call newSourceId earlier (.creating doc))
    (hstep : createDocument w doc = some r) :
    Good env own ownSource (Own env userId call newSourceId earlier) w r := by
  obtain ⟨hunborn, hnew, hfile⟩ := hknows
  unfold createDocument at hstep
  split at hstep
  · cases hstep
  · rename_i hfree
    have hfree : w.blocksDocument doc = false := Bool.eq_false_iff.mpr hfree
    split at hstep <;> cases hstep
    · rename_i db hinsert
      exact ⟨holdDocument_ok h hfree hinsert, ⟨hunborn, hnew, hfile, List.mem_cons_self⟩,
        holdDocument_rely⟩
    · rename_i hnone
      refine .query h ⟨hunborn, hnew, ?_⟩
      obtain ⟨mime, sourceId, rfl, -⟩ := hnew
      obtain ⟨row, hrow, hmatch⟩ := insertDocument_none hnone hunborn
      exact ⟨row, .inl hrow, fun old hold => (h.gone old (hearlier old hold) row hrow).symm, hmatch⟩

/-- `delete_prefix` after a clash, whatever it leaves. -/
theorem clashed_good (h : w.Ok env)
    (hknows : UploadKnows env w userId call newSourceId earlier (.clashed doc))
    (stuck : List Text) :
    Good env (some call.documentId) (some newSourceId) (Own env userId call newSourceId earlier) w
      (w.deletePrefix (storagePrefix call.documentId) stuck, .rechecking) := by
  obtain ⟨hunborn, -, htaken⟩ := hknows
  have hrely : Rely (some call.documentId) (some newSourceId) w
      (w.deletePrefix (storagePrefix call.documentId) stuck) := deletePrefix_rely (.inl rfl)
  exact ⟨deletePrefix_ok h fun row hrow => hunborn row (.inl hrow), hrely.taken htaken, hrely⟩

/-- **One statement of an upload.** -/
theorem uploadStep_good (h : w.Ok env) {r : Shared × Pc}
    (hearlier : ∀ row ∈ earlier, row ∈ w.deleted)
    (hknows : UploadKnows env w userId call newSourceId earlier pc)
    (hstep : uploadStep env userId call newSourceId w pc c = some r) :
    Good env (some call.documentId) (some newSourceId) (Own env userId call newSourceId earlier)
      w r := by
  unfold uploadStep at hstep
  split at hstep
  · cases hstep
    exact .query h (enterUpload_knows hknows.1 hknows.2)
  · cases hstep
    exact .query h (resolveSource_knows hknows.1 hknows.2)
  · exact createSource_good h hknows hstep
  · cases hstep
    refine (commitSource_good h hknows _ ?_).2
    exact fun _ hunborn hsource => ⟨hunborn, hsource⟩
  · cases hstep
    refine (commitSource_good h hknows _ ?_).2
    exact fun _ _ _ he => absurd he (by simp)
  · cases hstep
    exact .query h (fallBack_knows hknows.1 hknows.2)
  · cases hstep
    obtain ⟨hunborn, hsource⟩ := hknows
    rw [storageKey_eq]
    refine ⟨put_original_ok h hunborn _ _, ⟨hunborn, ⟨_, _, rfl, hsource⟩, ?_⟩,
      put_original_rely _ _⟩
    rw [storageKey_eq]
    exact storage_put_self
  · cases hstep
    rw [storageKey_eq]
    exact ⟨lose_ok (put_original_ok h hknows.1 _ _) _, fun he => absurd he (by simp),
      (put_original_rely _ _).lose _⟩
  · exact createDocument_good h hearlier hknows hstep
  · cases hstep
    refine (commitDocument_good h hknows _ ?_).2
    exact fun _ huploaded => huploaded
  · cases hstep
    refine (commitDocument_good h hknows _ ?_).2
    exact fun _ _ he => absurd he (by simp)
  · cases hstep
    exact clashed_good h hknows []
  · cases hstep
    exact clashed_good h hknows _
  · cases hstep
    exact .query h (recheck_knows hknows)
  · refine (restartStep_good uploaded_lasting h ?_ hstep).imp fun _ _ => .of_carries
    -- every other place of an upload has been named above, or is one of these
    cases pc with
    | raised e => simp [restartStep] at hstep
    | restarting => exact hknows
    | resetting => exact hknows
    | refreshing => exact hknows
    | enqueueing => exact hknows
    | unqueued => exact hknows
    | refreshingFailed => exact hknows
    | returned => exact hknows
    | _ => simp [restartStep] at hstep

theorem retryStep_good (h : w.Ok env) {r : Shared × Pc} (hknows : RetryKnows w userId documentId pc)
    (hstep : retryStep userId documentId w pc c = some r) :
    Good env own ownSource (fun w => RetryKnows w userId documentId) w r := by
  unfold retryStep at hstep
  split at hstep
  · split at hstep
    · rename_i doc hfound
      obtain ⟨hmem, hmatch⟩ := Table.selectOne_some hfound
      obtain ⟨howner, hid⟩ := Bool.and_eq_true_iff.mp hmatch
      split at hstep <;> cases hstep
      · exact .query h ⟨⟨doc, .inl hmem, rfl⟩, of_decide_eq_true howner, of_decide_eq_true hid⟩
      · exact .query h (RetryKnows.of_carries (by simp [Pc.Carries]))
    · cases hstep
      exact .query h (RetryKnows.of_carries (by simp [Pc.Carries]))
  · refine (restartStep_good requested_lasting h ?_ hstep).imp fun _ _ => .of_carries
    cases pc with
    | entered => simp [restartStep] at hstep
    | _ => exact hknows

theorem deleteStep_good (h : w.Ok env) {r : Shared × Pc}
    (hknows : DeleteKnows w userId documentId pc)
    (hstep : deleteStep userId documentId w pc c = some r) :
    Good env own ownSource (fun w => DeleteKnows w userId documentId) w r := by
  unfold deleteStep at hstep
  split at hstep
  · split at hstep <;> cases hstep
    · rename_i doc hfound
      obtain ⟨hmem, hmatch⟩ := Table.selectOne_some hfound
      obtain ⟨howner, hid⟩ := Bool.and_eq_true_iff.mp hmatch
      exact .query h ⟨⟨doc, .inl hmem, rfl⟩, of_decide_eq_true howner, of_decide_eq_true hid⟩
    · exact .query h (by simp [DeleteKnows])
  · cases hstep
    exact ⟨delete_ok h, deleted_of_known hknows.1, delete_rely⟩
  · cases hstep
    exact ⟨lose_ok (delete_ok h) _, by simp [DeleteKnows], delete_rely.lose _⟩
  · cases hstep
    exact ⟨enqueuePurge_ok h hknows, trivial, enqueuePurge_rely _⟩
  · cases hstep
    exact ⟨lose_ok h _, trivial, Rely.refl.lose _⟩
  · cases hstep

/-- A call that knows what to know at its place keeps what it knows of the rows deleted before. -/
theorem Rely.knows {q : Party} (h : Rely own ownSource w w')
    (hearlier : ∀ row ∈ q.earlier, row ∈ w.deleted) (hpc : q.AtPc env w') : q.Knows env w' :=
  ⟨fun row hrow => h.deleted row (hearlier row hrow), hpc⟩

/-- **One statement of a call**, or its end by an exception. -/
theorem party_good {p q : Party} (h : w.Ok env) (hknows : p.Knows env w)
    (hstep : p.step env w c = some (w', q)) :
    q.request = p.request ∧ w'.Ok env ∧ q.Knows env w' ∧ Rely p.documentId? p.sourceId? w w' := by
  obtain ⟨userId, request, earlier, pc⟩ := p
  obtain ⟨hearlier, hpc⟩ := hknows
  have habort : ∀ name, (Party.mk userId request earlier (.raised (.other name))).AtPc env w' := by
    intro name
    cases request with
    | upload => exact fun he => absurd he (by simp)
    | retry => exact fun he => absurd he (by simp)
    | delete => exact fun he => absurd he (by simp)
  have hadvance : ∀ {c}, (Party.advance env w ⟨userId, request, earlier, pc⟩ c).map
      (fun r => (r.1, Party.mk userId request earlier r.2)) = some (w', q) →
      q.request = request ∧ w'.Ok env ∧ q.Knows env w' ∧
        Rely (Party.mk userId request earlier pc).documentId?
          (Party.mk userId request earlier pc).sourceId? w w' := by
    intro c hmap
    obtain ⟨r, hr, heq⟩ := Option.map_eq_some_iff.mp hmap
    obtain ⟨rfl, rfl⟩ := Prod.mk.inj heq
    cases request with
    | upload call newSourceId =>
      have hgood := uploadStep_good h hearlier hpc hr
      exact ⟨rfl, hgood.ok, hgood.rely.knows hearlier hgood.knows, hgood.rely⟩
    | retry documentId =>
      have hgood : Good env none none _ w r := retryStep_good h hpc hr
      exact ⟨rfl, hgood.ok, hgood.rely.knows hearlier hgood.knows, hgood.rely⟩
    | delete documentId =>
      have hgood : Good env none none _ w r := deleteStep_good h hpc hr
      exact ⟨rfl, hgood.ok, hgood.rely.knows hearlier hgood.knows, hgood.rely⟩
  cases c with
  | fails name =>
    simp only [Party.step] at hstep
    split at hstep
    · cases hstep
    · obtain ⟨rfl, rfl⟩ := Prod.mk.inj (Option.some.inj hstep)
      refine ⟨rfl, ?_⟩
      have hended : ∀ {w₁ : Shared}, w₁.Ok env →
          Rely (Party.mk userId request earlier pc).documentId?
            (Party.mk userId request earlier pc).sourceId? w w₁ →
          (w₁.loseHeld pc.held).Ok env ∧
          Rely (Party.mk userId request earlier pc).documentId?
            (Party.mk userId request earlier pc).sourceId? w
            (w₁.loseHeld pc.held) := by
        intro w₁ hok hrely
        cases pc.held with
        | some id => exact ⟨lose_ok hok _, hrely.lose _⟩
        | none => exact ⟨hok, hrely⟩
      have hok : ((Party.mk userId request earlier pc).abort w).Ok env ∧
          Rely (Party.mk userId request earlier pc).documentId?
            (Party.mk userId request earlier pc).sourceId? w
            ((Party.mk userId request earlier pc).abort w) := by
        cases request with
        | upload call newSourceId => exact hended (release_ok h _ _) (release_rely _ _)
        | retry => exact hended h .refl
        | delete => exact hended h .refl
      exact ⟨hok.1, hok.2.knows hearlier (habort name), hok.2⟩
  | _ => exact hadvance hstep

end Steps

/-! ## 5. The system -/

section System

variable {env : Env} {s s' : Sys}

/-- The invariant of the system: beside what the calls know, whose id is whose. -/
structure Sys.Ok (env : Env) (s : Sys) : Prop where
  holds : s.Holds (Shared.Ok env) fun w p => p.Knows env w
  documentIds : s.Distinct Party.documentId?
  sourceIds : s.Distinct Party.sourceId?
  /-- Every row has been drawn by a call. -/
  drawn : ∀ row, s.shared.Had row → ∃ p ∈ s.parties, p.documentId? = some row.id
  sourceDrawn : ∀ row ∈ s.shared.db.sources.rows, ∃ p ∈ s.parties, p.sourceId? = some row.id

/-- A step of the environment. -/
theorem Sys.Ok.env_step (h : s.Ok env) {w : Shared} (hok : w.Ok env)
    (hrely : Rely none none s.shared w) : Sys.Ok env { s with shared := w } where
  holds := h.holds.env hok fun p hknows =>
    hknows.mono hrely (fun _ _ => by simp) fun _ _ => by simp
  documentIds := h.documentIds
  sourceIds := h.sourceIds
  drawn := by
    intro row hrow
    obtain ⟨old, hold, hid⟩ := (hrely.born row hrow).resolve_right (by simp)
    exact hid ▸ h.drawn old hold
  sourceDrawn := by
    intro row hrow
    exact h.sourceDrawn row ((hrely.sourceBorn row hrow).resolve_right (by simp))

/-- The broker forgets a message. -/
theorem forget_ok {w : Shared} (h : w.Ok env) (i : Nat) :
    ({ w with purges := w.purges.eraseIdx i } : Shared).Ok env :=
  { h with purges := fun front hfront => h.purges front (List.mem_of_mem_eraseIdx hfront) }

theorem forget_rely {own ownSource : Option Uuid} {w w' : Shared} (h : Rely own ownSource w w')
    (i : Nat) : Rely own ownSource w { w' with purges := w'.purges.eraseIdx i } := { h with }

/-- What another party drew is not what the party that moves drew. -/
theorem party_step (h : s.Ok env) {i : Nat} {c : Choice}
    (hact : s.act (Party.step env) i c = some s') : s'.Ok env := by
  obtain ⟨p, w, q, hp, hstep, rfl⟩ := Par.act_eq_some.mp hact
  have hmem : p ∈ s.parties := List.mem_of_getElem? hp
  obtain ⟨hrequest, hok, hknows, hrely⟩ := party_good h.holds.shared (h.holds.parties p hmem) hstep
  have hid : q.documentId? = p.documentId? := by simp only [Party.documentId?, hrequest]
  have hsourceId : q.sourceId? = p.sourceId? := by simp only [Party.sourceId?, hrequest]
  -- whoever has drawn an id is still there, with that id
  have hkeep : ∀ {f : Party → Option Uuid} {id : Uuid}, f q = f p →
      (∃ r ∈ s.parties, f r = some id) → ∃ r ∈ s.parties.set i q, f r = some id := by
    rintro f id hf ⟨r, hr, hdrawn⟩
    obtain ⟨j, hj⟩ := List.mem_iff_getElem?.mp hr
    by_cases hij : j = i
    · subst hij
      obtain rfl := Option.some.inj (hp.symm.trans hj)
      exact ⟨q, List.mem_of_getElem? (set_self hp), hf.trans hdrawn⟩
    · exact ⟨r, List.mem_of_getElem? ((set_other hij).trans hj), hdrawn⟩
  exact
    { holds := h.holds.set_of_ne hok hknows fun j r hne hr hr' =>
        hr'.mono hrely (fun _ => h.documentIds.ne hne hp hr) fun _ => h.sourceIds.ne hne hp hr
      documentIds := h.documentIds.set hp hid
      sourceIds := h.sourceIds.set hp hsourceId
      drawn := by
        intro row hrow
        refine hkeep hid ?_
        rcases hrely.born row hrow with ⟨old, hold, hsame⟩ | hown
        · exact hsame ▸ h.drawn old hold
        · exact ⟨p, hmem, hown.symm⟩
      sourceDrawn := by
        intro row hrow
        refine hkeep hsourceId ?_
        rcases hrely.sourceBorn row hrow with hold | hown
        · exact h.sourceDrawn row hold
        · exact ⟨p, hmem, hown.symm⟩ }

/-- A call begins with ids that nobody has drawn. -/
theorem spawn_ok (h : s.Ok env) {userId : Uuid} {request : Request}
    (hfresh :
      s.fresh { userId := userId, request := request, earlier := s.shared.deleted } = true) :
    Sys.Ok env (s.spawn { userId := userId, request := request, earlier := s.shared.deleted }) := by
  set p : Party := { userId := userId, request := request, earlier := s.shared.deleted } with hp
  have hnew : ∀ r ∈ s.parties, ∀ id, p.documentId? = some id → r.documentId? ≠ some id := by
    intro r hr id hid
    simpa [hid] using (Bool.and_eq_true_iff.mp (List.all_eq_true.mp hfresh r hr)).1
  have hnewSource : ∀ r ∈ s.parties, ∀ id, p.sourceId? = some id → r.sourceId? ≠ some id := by
    intro r hr id hid
    simpa [hid] using (Bool.and_eq_true_iff.mp (List.all_eq_true.mp hfresh r hr)).2
  have hknows : p.Knows env s.shared := by
    refine ⟨fun _ hrow => hrow, ?_⟩
    cases request with
    | upload call newSourceId =>
      refine ⟨fun row hrow heq => ?_, fun row hrow heq => ?_⟩
      · obtain ⟨r, hr, hid⟩ := h.drawn row hrow
        exact hnew r hr call.documentId rfl (heq ▸ hid)
      · obtain ⟨r, hr, hid⟩ := h.sourceDrawn row hrow
        exact hnewSource r hr newSourceId rfl (heq ▸ hid)
    | retry => trivial
    | delete => trivial
  exact
    { holds := h.holds.spawn hknows
      documentIds := h.documentIds.spawn hnew
      sourceIds := h.sourceIds.spawn hnewSource
      drawn := by
        intro row hrow
        obtain ⟨r, hr, hid⟩ := h.drawn row hrow
        exact ⟨r, List.mem_append_left _ hr, hid⟩
      sourceDrawn := by
        intro row hrow
        obtain ⟨r, hr, hid⟩ := h.sourceDrawn row hrow
        exact ⟨r, List.mem_append_left _ hr, hid⟩ }

/-- **Every step keeps the invariant.** -/
theorem step_ok {l : Label} (h : s.Ok env) (hstep : s.step env l = some s') : s'.Ok env := by
  cases l with
  | post userId request =>
    simp only [Sys.step] at hstep
    split at hstep <;> cases hstep
    rename_i hfresh
    exact spawn_ok h hfresh
  | act i c => exact party_step h hstep
  | purge i acked stuck =>
    obtain ⟨front, hfront, rfl⟩ := Option.map_eq_some_iff.mp hstep
    obtain ⟨row, hrow, rfl⟩ := h.holds.shared.purges front (List.mem_of_getElem? hfront)
    have hok : (s.shared.deletePrefix (storagePrefix row.id) stuck).Ok env :=
      deletePrefix_ok h.holds.shared (h.holds.shared.gone row hrow)
    have hrely : Rely none none s.shared (s.shared.deletePrefix (storagePrefix row.id) stuck) :=
      deletePrefix_rely (.inr ⟨row, .inr hrow, rfl⟩)
    cases acked with
    | true => exact h.env_step (forget_ok hok i) (forget_rely hrely i)
    | false => exact h.env_step hok hrely
  | losePurge i =>
    obtain ⟨front, hfront, rfl⟩ := Option.map_eq_some_iff.mp hstep
    exact h.env_step (forget_ok (lose_ok h.holds.shared front) i)
      (forget_rely (Rely.refl.lose front) i)
  | normalize documentId data =>
    cases hstep
    exact h.env_step (put_normalized_ok h.holds.shared data) (put_normalized_rely data)
  | move documentId status error now =>
    cases hstep
    exact h.env_step (update_ok h.holds.shared) update_rely

theorem start_ok : start.Ok env := by
  have hshared : (({} : Shared)).Ok env := by
    constructor <;> simp [Shared.HasDefault, Db.empty, Table.empty]
  exact
    { holds := Par.holds_nil hshared
      documentIds := fun i j p q k hp => by simp [start] at hp
      sourceIds := fun i j p q k hp => by simp [start] at hp
      drawn := fun row hrow => by simp [start, Shared.Had, Db.empty, Table.empty] at hrow
      sourceDrawn := fun row hrow => by simp [start, Db.empty, Table.empty] at hrow }

theorem run_ok {ls : List Label} (hrun : run (Sys.step env) start ls = some s) : s.Ok env :=
  run_invariant_of_step (fun _ _ _ => step_ok) start_ok hrun

end System

/-! ## 6. Every run -/

/-- The call is an upload of a file with this checksum, and was answered. -/
def Party.Answered (env : Env) (p : Party) (userId : Uuid) (checksum : Text) (doc : DocumentRow)
    (deduplicated : Bool) : Prop :=
  p.userId = userId ∧ p.pc = .returned doc deduplicated ∧
    ∃ call newSourceId, p.request = .upload call newSourceId ∧ env.sha256 call.data = checksum

/-- The document was deleted. -/
def Shared.Gone (w : Shared) (id : Uuid) : Prop := ∃ row ∈ w.deleted, row.id = id

theorem Party.Answered.uploaded {env : Env} {w : Shared} {p : Party} {userId : Uuid}
    {checksum : Text} {doc : DocumentRow} {b : Bool} (h : p.Answered env userId checksum doc b)
    (hknows : p.Knows env w) :
    w.Known doc ∧ doc.uploadedBy = userId ∧ doc.checksum = checksum ∧
      (b = false → p.documentId? = some doc.id) := by
  obtain ⟨-, hpc⟩ := hknows
  obtain ⟨user, request, earlier, pc⟩ := p
  obtain ⟨rfl, rfl, call, newSourceId, rfl, rfl⟩ := h
  obtain ⟨hknown, howner, hchecksum, hnew⟩ := hpc
  exact ⟨hknown, howner, hchecksum, fun hb => congrArg some (hnew hb).symm⟩

/-- **One document for one file.** -/
theorem one_document (env : Env) {ls : List Label} {s : Sys}
    (hrun : run (Sys.step env) start ls = some s) :
    -- an upload is answered with a document of its own user and file, that was in the table
    (∀ p ∈ s.parties, ∀ userId checksum doc b, p.Answered env userId checksum doc b →
      doc.uploadedBy = userId ∧ doc.checksum = checksum ∧ s.shared.Known doc) ∧
    -- all of a user's uploads of a file with the same one, and one of them at most has made it
    (∀ (i j : Nat) p q userId checksum doc doc' b b', s.parties[i]? = some p →
      s.parties[j]? = some q → p.Answered env userId checksum doc b →
      q.Answered env userId checksum doc' b' → ¬ s.shared.Gone doc.id → ¬ s.shared.Gone doc'.id →
      doc.id = doc'.id ∧ (b = false → b' = false → i = j)) ∧
    -- an `IntegrityError` gets out only if the document was deleted while the call was under way
    (∀ p ∈ s.parties, p.pc = .raised .integrityError → ∃ call newSourceId,
      p.request = .upload call newSourceId ∧
      s.shared.Dropped p.earlier p.userId (env.sha256 call.data)) ∧
    -- what the insert has let through, the commit does not refuse
    (∀ p ∈ s.parties, ∀ doc now w q, p.pc = .committing doc →
      p.step env s.shared (.go now) = some (w, q) → q.pc = .enqueueing doc .parse false) := by
  have hs : s.Ok env := run_ok hrun
  refine ⟨fun p hp userId checksum doc b h => ?_, fun i j p q userId checksum doc doc' b b' hp hq h
    h' hgone hgone' => ?_, fun p hp hraised => ?_, fun p hp doc now w q hpc hstep => ?_⟩
  · obtain ⟨hknown, howner, hchecksum, -⟩ := h.uploaded (hs.holds.parties p hp)
    exact ⟨howner, hchecksum, hknown⟩
  · obtain ⟨⟨row, hrow, hfixed⟩, howner, hchecksum, hmade⟩ :=
      h.uploaded (hs.holds.parties p (List.mem_of_getElem? hp))
    obtain ⟨⟨row', hrow', hfixed'⟩, howner', hchecksum', hmade'⟩ :=
      h'.uploaded (hs.holds.parties q (List.mem_of_getElem? hq))
    have hrow : row ∈ s.shared.db.documents.rows :=
      hrow.resolve_right fun hdeleted => hgone ⟨row, hdeleted, fixed_id hfixed⟩
    have hrow' : row' ∈ s.shared.db.documents.rows :=
      hrow'.resolve_right fun hdeleted => hgone' ⟨row', hdeleted, fixed_id hfixed'⟩
    have hsame : row = row' := by
      refine hs.holds.shared.unique row hrow row' hrow' ?_ ?_
      · rw [fixed_owner hfixed, fixed_owner hfixed', howner, howner']
      · rw [fixed_checksum hfixed, fixed_checksum hfixed', hchecksum, hchecksum']
    have hid : doc.id = doc'.id := by
      rw [← fixed_id hfixed, ← fixed_id hfixed', hsame]
    exact ⟨hid, fun hb hb' => hs.documentIds i j p q doc.id hp hq (hmade hb) (hid ▸ hmade' hb')⟩
  · have hknows := (hs.holds.parties p hp).atPc
    obtain ⟨userId, request, earlier, pc⟩ := p
    obtain rfl := hraised
    cases request with
    | upload call newSourceId => exact ⟨call, newSourceId, rfl, hknows rfl⟩
    | retry => exact absurd rfl hknows
    | delete => exact absurd rfl hknows
  · have hknows := (hs.holds.parties p hp).atPc
    obtain ⟨userId, request, earlier, pc⟩ := p
    obtain rfl := hpc
    cases request with
    | upload call newSourceId =>
      obtain ⟨rfl, rfl⟩ := Prod.mk.inj (Option.some.inj hstep)
      have hcommitting :
          UploadKnows env s.shared userId call newSourceId earlier (.committing doc) := hknows
      refine (commitDocument_good hs.holds.shared hcommitting (.enqueueing doc .parse false) ?_).1
      exact fun _ huploaded => huploaded
    | retry => exact hknows.elim
    | delete => exact hknows.elim

/-! ### Two uploads of one file at the same time -/

/-- The call goes on. -/
def goes (i : Nat) : Label := .act i (.go Upload.sampleInstant)

/-- Both find that the file is new and that the user has no source; both write the file. -/
def bothRun : List Label :=
  [.post 1 (.upload (Upload.sampleCall 10) 20), .post 1 (.upload (Upload.sampleCall 11) 21)] ++
    [0, 1, 0, 1, 0, 0, 1, 1, 0, 1, 0, 0, 1, 1, 1, 0].map goes

/-- The answer of an upload: the document's id, and whether it was there already. -/
def Party.answer? (p : Party) : Option (Uuid × Bool) :=
  match p.pc with
  | .returned doc deduplicated => some (doc.id, deduplicated)
  | _ => none

theorem one_document_both :
    ∃ s, run (Sys.step Upload.sampleEnv) start bothRun = some s ∧
      s.parties.map Party.answer? = [some (10, false), some (10, true)] ∧
      s.shared.db.documents.rows.map DocumentRow.id = [10] ∧
      ∀ p ∈ s.parties, ∀ userId checksum doc b,
        p.Answered Upload.sampleEnv userId checksum doc b → doc.checksum = checksum := by
  have hend : (run (Sys.step Upload.sampleEnv) start bothRun).map (fun s =>
      (s.parties.map Party.answer?, s.shared.db.documents.rows.map DocumentRow.id)) =
        some ([some (10, false), some (10, true)], [10]) := by decide
  obtain ⟨s, hs, heq⟩ := Option.map_eq_some_iff.mp hend
  obtain ⟨hanswers, hrows⟩ := Prod.mk.inj heq
  exact ⟨s, hs, hanswers, hrows, fun p hp userId checksum doc b h =>
    ((one_document Upload.sampleEnv hs).1 p hp userId checksum doc b h).2.1⟩

/-- The same, but the document is deleted before the second call looks for it. -/
def deletedRun : List Label :=
  [.post 1 (.upload (Upload.sampleCall 10) 20), .post 1 (.upload (Upload.sampleCall 11) 21)] ++
    [0, 1, 0, 1, 0, 0, 1, 1, 0, 1, 0, 0, 1, 1].map goes ++
    .post 1 (.delete 10) :: [2, 2, 1].map goes

/-- The call has raised an `IntegrityError`. -/
def Party.unfound (p : Party) : Bool :=
  match p.pc with
  | .raised .integrityError => true
  | _ => false

/-- **The clash that finds nothing**: the second call raises, and the file is nowhere. -/
theorem clash_unfound :
    ∃ s, run (Sys.step Upload.sampleEnv) start deletedRun = some s ∧
      s.parties.map Party.unfound = [false, true, false] ∧ s.shared.db.documents.rows = [] := by
  have hend : (run (Sys.step Upload.sampleEnv) start deletedRun).map (fun s =>
      (s.parties.map Party.unfound, s.shared.db.documents.rows)) =
        some ([false, true, false], []) := by decide
  obtain ⟨s, hs, heq⟩ := Option.map_eq_some_iff.mp hend
  obtain ⟨hraised, hrows⟩ := Prod.mk.inj heq
  exact ⟨s, hs, hraised, hrows⟩

end AtlasKnowledge.Services.UploadSystem
