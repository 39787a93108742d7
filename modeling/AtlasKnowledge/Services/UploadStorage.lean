/-
# Whose file it is

Every uploaded file in the storage can be accounted for, in any interleaving of the calls, the
workers and the pipeline.

* `party_passes`: what one statement of a call does to the account;
* `originals_accounted`: the file of every document is in the storage, byte for byte; and a file is
  a document's, or is still to be purged, or is in the hands of a call, or was lost to an exception
  or to a removal that left it.
  When all is quiet and nothing was lost, the files are exactly those of the documents.
-/
import AtlasKnowledge.Services.UploadOnce

namespace AtlasKnowledge.Services.UploadSystem

open Interleave Transition
open Pagination (Timestamp)
open Pipeline (Stage DocStatus)
open Upload (Storage Exc safeName storageKey document)

/-! ## 1. The account -/

/-- The file is a document's, or a purge is on its way, or nobody will clean it any more. -/
def Shared.Covers (w : Shared) (key : Text) : Prop :=
  (∃ row ∈ w.db.documents.rows, row.storageKey = key) ∨ (∃ front ∈ w.purges, front <+: key) ∨
    ∃ front ∈ w.lost, front <+: key

/-- The call has the file in hand: it was stored and its row is not committed, or the row was
deleted and the purge is not sent. -/
def Pc.Holds (key : Text) : Pc → Prop
  | .creating doc => doc.storageKey = key
  | .committing doc => doc.storageKey = key
  | .clashed doc => doc.storageKey = key
  | .purging doc => storagePrefix doc.id <+: key
  | _ => False

/-- What is in the storage after a step was accounted for by nobody before, or is still. -/
def Passes (w : Shared) (pc : Pc) (r : Shared × Pc) : Prop :=
  ∀ id suffix, r.1.storage (originalKey id suffix) ≠ none →
    (r.1.Covers (originalKey id suffix) ∨ r.2.Holds (originalKey id suffix)) ∨
      (w.storage (originalKey id suffix) ≠ none ∧
        ¬ (w.Covers (originalKey id suffix) ∨ pc.Holds (originalKey id suffix)))

section Steps

variable {env : Env} {w w' : Shared} {pc pc' : Pc} {c : Choice} {key : Text} {r : Shared × Pc}
  {userId newSourceId documentId : Uuid} {call : Upload.Call} {doc row : DocumentRow}

/-- Nothing is stored, and whoever accounted for a file passes it on. -/
theorem Passes.of_le
    (hstorage : ∀ id suffix, r.1.storage (originalKey id suffix) ≠ none →
      w.storage (originalKey id suffix) ≠ none)
    (hpass : ∀ id suffix, r.1.storage (originalKey id suffix) ≠ none →
      w.Covers (originalKey id suffix) ∨ pc.Holds (originalKey id suffix) →
      r.1.Covers (originalKey id suffix) ∨ r.2.Holds (originalKey id suffix)) :
    Passes w pc r := by
  intro id suffix hfile
  by_cases hheld : w.Covers (originalKey id suffix) ∨ pc.Holds (originalKey id suffix)
  · exact .inl (hpass id suffix hfile hheld)
  · exact .inr ⟨hstorage id suffix hfile, hheld⟩

/-- A call that holds nothing, and a step that takes nothing from the account. -/
theorem Passes.of_covers (hstorage : w'.storage = w.storage)
    (hcovers : ∀ key, w.Covers key → w'.Covers key) (hpc : ∀ key, ¬ pc.Holds key) :
    Passes w pc (w', pc') :=
  .of_le (fun _ _ hfile => hstorage ▸ hfile)
    fun _ _ _ hheld => .inl (hcovers _ (hheld.resolve_right (hpc _)))

theorem Passes.query (hpc : ∀ key, ¬ pc.Holds key) : Passes w pc (w, pc') :=
  .of_covers rfl (fun _ h => h) hpc

theorem covers_lose (h : w.Covers key) (front : Text) : (w.lose front).Covers key :=
  h.imp_right fun h => h.imp_right fun ⟨f, hf, hkey⟩ => ⟨f, List.mem_append_left _ hf, hkey⟩

theorem covers_lost {front : Text} (h : front <+: key) : (w.lose front).Covers key :=
  .inr (.inr ⟨front, List.mem_append_right _ (List.mem_singleton.mpr rfl), h⟩)

theorem covers_update {id : Uuid} {status : DocStatus} {error : Option String} {now : Timestamp}
    (h : w.Covers key) : (w.update id status error now).Covers key := by
  refine h.imp_left ?_
  rintro ⟨row, hrow, rfl⟩
  obtain ⟨row', hrow', hfixed⟩ := exists_update hrow
  exact ⟨row', hrow', fixed_key hfixed⟩

theorem covers_deletePrefix {front : Text} {stuck : List Text} (h : w.Covers key) :
    (w.deletePrefix front stuck).Covers key := by
  refine h.imp_right fun h => h.imp_right ?_
  rintro ⟨f, hf, hkey⟩
  refine ⟨f, ?_, hkey⟩
  simp only [Shared.deletePrefix]
  split
  · exact hf
  · exact List.mem_append_left _ hf

/-- A removal brings nothing back, and what it leaves below the prefix is nobody's to clean. -/
theorem deletePrefix_left {front : Text} {stuck : List Text}
    (hfile : (w.deletePrefix front stuck).storage key ≠ none) :
    w.storage key ≠ none ∧
      (front <+: key → ∃ f ∈ (w.deletePrefix front stuck).lost, f <+: key) := by
  simp only [Shared.deletePrefix, Storage.deletePrefixBut] at hfile
  split at hfile
  · rename_i hstuck
    refine ⟨hfile, fun hkey => ⟨front, ?_, hkey⟩⟩
    have hne : stuck ≠ [] := List.ne_nil_of_mem hstuck
    simp only [Shared.deletePrefix, hne, if_false]
    exact List.mem_append_right _ (List.mem_singleton.mpr rfl)
  · unfold Storage.deletePrefix at hfile
    split at hfile
    · exact absurd rfl hfile
    · rename_i hno
      exact ⟨hfile, fun hkey => absurd (List.isPrefixOf_iff_prefix.mpr hkey) hno⟩

/-! ## 2. The statements -/

theorem written_passes {status : DocStatus} {error : Option String} {now : Timestamp}
    (hpc : ∀ key, ¬ pc.Holds key) : Passes w pc (written w doc status error now pc') := by
  unfold written
  split
  · exact .query hpc
  · split
    · exact .of_covers rfl (fun _ => covers_update) hpc
    · exact .query hpc

theorem restartStep_passes (hstep : restartStep w pc c = some r) : Passes w pc r := by
  unfold restartStep at hstep
  split at hstep <;> cases hstep
  · exact .query fun _ h => h
  · exact written_passes fun _ h => h
  · exact written_passes fun _ h => h
  · exact .query fun _ h => h
  · exact .query fun _ h => h
  · exact .query fun _ h => h
  · exact written_passes fun _ h => h
  · exact written_passes fun _ h => h
  · exact .query fun _ h => h

/-- A deleted row's file goes to the call that has deleted it. -/
theorem delete_covers {id : Uuid} (hok : w.Ok env) (h : w.Covers key) :
    (w.delete id).Covers key ∨ storagePrefix id <+: key := by
  rcases h with ⟨row, hrow, rfl⟩ | h
  · by_cases hid : row.id = id
    · exact .inr (hid ▸ front_of_key hok hrow)
    · exact .inl (.inl ⟨row, List.mem_filter.mpr ⟨hrow, by simpa using hid⟩, rfl⟩)
  · exact .inl (.inr h)

theorem deleteStep_passes (hok : w.Ok env) (hstep : deleteStep userId documentId w pc c = some r) :
    Passes w pc r := by
  unfold deleteStep at hstep
  split at hstep
  · split at hstep <;> cases hstep <;> exact .query fun _ h => h
  · cases hstep
    refine .of_le (fun _ _ hfile => hfile) fun id suffix _ hheld => ?_
    exact delete_covers hok (hheld.resolve_right fun h => h)
  · cases hstep
    refine .of_le (fun _ _ hfile => hfile) fun id suffix _ hheld => .inl ?_
    rcases delete_covers hok (hheld.resolve_right fun h => h) with hcovers | hfront
    · exact covers_lose hcovers _
    · exact covers_lost hfront
  · cases hstep
    refine .of_le (fun _ _ hfile => hfile) fun id suffix _ hheld => .inl ?_
    rcases hheld with hcovers | hfront
    · exact hcovers.imp_right fun h =>
        h.imp_left fun ⟨f, hf, hkey⟩ => ⟨f, List.mem_append_left _ hf, hkey⟩
    · exact .inr (.inl ⟨_, List.mem_append_right _ (List.mem_singleton.mpr rfl), hfront⟩)
  · cases hstep
    refine .of_le (fun _ _ hfile => hfile) fun id suffix _ hheld => .inl ?_
    rcases hheld with hcovers | hfront
    · exact covers_lose hcovers _
    · exact covers_lost hfront
  · cases hstep

/-- A new row takes over the file of the call. -/
theorem commitDocument_passes (hok : w.Ok env)
    (hknows : UploadKnows env w userId call newSourceId earlier (.committing doc)) (next : Pc) :
    Passes w (.committing doc) (commitDocument call newSourceId w doc next) := by
  obtain ⟨hunborn, ⟨mime, sourceId, rfl, -⟩, -, hpending⟩ := hknows
  unfold commitDocument
  split
  · rename_i db hinsert
    have hmem := (insertDocument_some hinsert).2.1
    refine .of_le (fun _ _ hfile => hfile) fun id suffix _ hheld => .inl ?_
    rcases hheld with hcovers | hkey
    · exact hcovers.imp_left fun ⟨row, hrow, hkey⟩ => ⟨row, (hmem row).mpr (.inr hrow), hkey⟩
    · exact .inl ⟨_, (hmem _).mpr (.inl rfl), hkey⟩
  · rename_i hnone
    obtain ⟨row, hrow, hmatch⟩ := insertDocument_none hnone hunborn
    exact absurd hmatch (hok.pending _ hpending row hrow)

theorem commitSource_passes {mime : String} {source : SourceRow} (hpc : ∀ key, ¬ pc.Holds key)
    (htype : source.type = defaultSourceType) (next : Pc) :
    Passes w pc (commitSource call newSourceId w mime source next) := by
  unfold commitSource
  split
  · rename_i db hinsert
    have hdocuments := (insertSource_some hinsert htype).2.2
    refine .of_covers rfl (fun key hcovers => hcovers.imp_left ?_) hpc
    rintro ⟨row, hrow, hkey⟩
    exact ⟨row, hdocuments ▸ hrow, hkey⟩
  · exact .of_covers rfl (fun _ h => h) hpc

/-- A file is written to the key of the call. -/
theorem put_passes {data : Bytes} (hpc : ∀ key, ¬ pc.Holds key)
    (hcovers : ∀ key, w.Covers key → w'.Covers key)
    (hstorage : w'.storage = w.storage.put (storageKey env call) data)
    (hheld : w'.Covers (storageKey env call) ∨ pc'.Holds (storageKey env call)) :
    Passes w pc (w', pc') := by
  intro id suffix hfile
  by_cases hkey : originalKey id suffix = storageKey env call
  · exact .inl (hkey ▸ hheld)
  · have hold : w.storage (originalKey id suffix) ≠ none := by
      rwa [hstorage, storage_put_of_ne hkey] at hfile
    by_cases hcovered : w.Covers (originalKey id suffix)
    · exact .inl (.inl (hcovers _ hcovered))
    · exact .inr ⟨hold, fun h => h.elim hcovered (hpc _)⟩

/-- The call's own file is below the prefix that is removed. -/
theorem clashed_passes (hknows : UploadKnows env w userId call newSourceId earlier (.clashed doc))
    (stuck : List Text) :
    Passes w (.clashed doc)
      (w.deletePrefix (storagePrefix call.documentId) stuck, .rechecking) := by
  obtain ⟨-, ⟨mime, sourceId, rfl, -⟩, -⟩ := hknows
  refine .of_le (fun id suffix hfile => (deletePrefix_left hfile).1)
    fun id suffix hfile hheld => .inl ?_
  rcases hheld with hcovers | hkey
  · exact covers_deletePrefix hcovers
  · have hfront : (storagePrefix call.documentId).isPrefixOf (originalKey id suffix) = true :=
      hkey ▸ Upload.isPrefixOf_storageKey
    exact .inr (.inr ((deletePrefix_left hfile).2 (List.isPrefixOf_iff_prefix.mp hfront)))

theorem uploadStep_passes (hok : w.Ok env)
    (hknows : UploadKnows env w userId call newSourceId earlier pc)
    (hstep : uploadStep env userId call newSourceId w pc c = some r) : Passes w pc r := by
  unfold uploadStep at hstep
  split at hstep
  · cases hstep
    exact .query fun _ h => h
  · cases hstep
    exact .query fun _ h => h
  · simp only [createSource] at hstep
    split at hstep
    · cases hstep
    · split at hstep <;> cases hstep
      · exact .of_covers rfl (fun _ h => h) fun _ h => h
      · exact .query fun _ h => h
  · cases hstep
    refine commitSource_passes ?_ hknows.2.2.2.2.2 _
    exact fun _ h => h
  · cases hstep
    refine commitSource_passes ?_ hknows.2.2.2.2.2 _
    exact fun _ h => h
  · cases hstep
    exact .query fun _ h => h
  · cases hstep
    exact put_passes (fun _ h => h) (fun _ h => h) rfl (.inr rfl)
  · cases hstep
    refine put_passes (fun _ h => h) (fun _ h => covers_lose h _) rfl (.inl (covers_lost ?_))
    rw [storageKey_eq]
    exact front_originalKey _ _
  · unfold createDocument at hstep
    split at hstep
    · cases hstep
    · split at hstep <;> cases hstep
      · exact .of_le (fun _ _ hfile => hfile) fun _ _ _ hheld => hheld
      · exact .of_le (fun _ _ hfile => hfile) fun _ _ _ hheld => hheld
  · cases hstep
    exact commitDocument_passes hok hknows _
  · cases hstep
    exact commitDocument_passes hok hknows _
  · cases hstep
    exact clashed_passes hknows []
  · cases hstep
    exact clashed_passes hknows _
  · cases hstep
    exact .query fun _ h => h
  · exact restartStep_passes hstep

theorem retryStep_passes (hstep : retryStep userId documentId w pc c = some r) :
    Passes w pc r := by
  unfold retryStep at hstep
  split at hstep
  · split at hstep
    · split at hstep <;> cases hstep <;> exact .query fun _ h => h
    · cases hstep
      exact .query fun _ h => h
  · exact restartStep_passes hstep

/-- What a call holds is below the prefix that its end leaves behind. -/
theorem front_of_holds (hknows : UploadKnows env w userId call newSourceId earlier pc)
    (hheld : pc.Holds key) : ∃ id, pc.held = some id ∧ storagePrefix id <+: key := by
  have hnew : ∀ {doc}, IsNew env w userId call doc → doc.storageKey = key →
      storagePrefix doc.id <+: key := by
    rintro doc ⟨mime, sourceId, rfl, -⟩ rfl
    exact List.isPrefixOf_iff_prefix.mp Upload.isPrefixOf_storageKey
  cases pc with
  | creating doc => exact ⟨doc.id, rfl, hnew hknows.2.1 hheld⟩
  | committing doc => exact ⟨doc.id, rfl, hnew hknows.2.1 hheld⟩
  | clashed doc => exact ⟨doc.id, rfl, hnew hknows.2.1 hheld⟩
  | purging doc => exact ⟨doc.id, rfl, hheld⟩
  | _ => exact hheld.elim

/-- A retry holds nothing, a delete only what it has deleted. -/
theorem Party.front_of_holds {p : Party} (hknows : p.AtPc env w) (hheld : p.pc.Holds key) :
    ∃ id, p.pc.held = some id ∧ storagePrefix id <+: key := by
  obtain ⟨userId, request, earlier, pc⟩ := p
  cases request with
  | upload call newSourceId => exact UploadSystem.front_of_holds hknows hheld
  | retry =>
    cases pc with
    | creating => exact hknows.elim
    | committing => exact hknows.elim
    | clashed => exact hknows.elim
    | purging => exact hknows.elim
    | _ => exact hheld.elim
  | delete =>
    cases pc with
    | creating => exact hknows.elim
    | committing => exact hknows.elim
    | clashed => exact hknows.elim
    | purging doc => exact ⟨doc.id, rfl, hheld⟩
    | _ => exact hheld.elim

/-- The end by an exception: what was held is lost. -/
theorem abort_passes {p : Party} (hknows : p.AtPc env w) :
    Passes w p.pc (p.abort w, pc') := by
  have hended : ∀ {w₁ : Shared}, w₁.storage = w.storage → (∀ key, w.Covers key → w₁.Covers key) →
      Passes w p.pc (w₁.loseHeld p.pc.held, pc') := by
    intro w₁ hstorage hcovers
    cases hheld : p.pc.held with
    | none =>
      refine .of_covers hstorage hcovers fun key hholds => ?_
      obtain ⟨id, hid, -⟩ := Party.front_of_holds hknows hholds
      cases hheld.symm.trans hid
    | some id =>
      refine .of_le (fun _ _ hfile => hstorage ▸ hfile) fun _ _ _ h => .inl ?_
      rcases h with hcovered | hholds
      · exact covers_lose (hcovers _ hcovered) _
      · obtain ⟨id', hid', hfront⟩ := Party.front_of_holds hknows hholds
        obtain rfl := Option.some.inj (hheld.symm.trans hid')
        exact covers_lost hfront
  unfold Party.abort
  cases p.request with
  | upload => exact hended rfl fun _ h => h
  | retry => exact hended rfl fun _ h => h
  | delete => exact hended rfl fun _ h => h

/-- **One statement of a call.** -/
theorem party_passes {p q : Party} (hok : w.Ok env) (hknows : p.AtPc env w)
    (hstep : p.step env w c = some (w', q)) : Passes w p.pc (w', q.pc) := by
  have hadvance : ∀ {c}, (p.advance env w c).map (fun r => (r.1, { p with pc := r.2 })) =
      some (w', q) → Passes w p.pc (w', q.pc) := by
    intro c hmap
    obtain ⟨r, hr, heq⟩ := Option.map_eq_some_iff.mp hmap
    obtain ⟨rfl, rfl⟩ := Prod.mk.inj heq
    obtain ⟨userId, request, earlier, pc⟩ := p
    cases request with
    | upload => exact uploadStep_passes hok hknows hr
    | retry => exact retryStep_passes hr
    | delete => exact deleteStep_passes hok hr
  cases c with
  | fails name =>
    simp only [Party.step] at hstep
    split at hstep
    · cases hstep
    · obtain ⟨rfl, rfl⟩ := Prod.mk.inj (Option.some.inj hstep)
      exact abort_passes hknows
  | _ => exact hadvance hstep

end Steps

/-! ## 3. The system -/

section System

variable {env : Env} {s s' : Sys}

/-- Every uploaded file in the storage is accounted for. -/
def Sys.Accounted (s : Sys) : Prop :=
  ∀ id suffix, s.shared.storage (originalKey id suffix) ≠ none →
    s.shared.Covers (originalKey id suffix) ∨ ∃ p ∈ s.parties, p.pc.Holds (originalKey id suffix)

/-- The file that a call has passed on is accounted for, and so is every other. -/
theorem Sys.Accounted.act (h : s.Accounted) (hok : s.Ok env) {i : Nat} {c : Choice}
    (hact : s.act (Party.step env) i c = some s') : s'.Accounted := by
  obtain ⟨p, w, q, hp, hstep, rfl⟩ := Par.act_eq_some.mp hact
  have hmem : p ∈ s.parties := List.mem_of_getElem? hp
  have hq : q ∈ s.parties.set i q := List.mem_of_getElem? (set_self hp)
  have hpasses := party_passes hok.holds.shared (hok.holds.parties p hmem).atPc hstep
  intro id suffix hfile
  rcases hpasses id suffix hfile with (hcovers | hholds) | ⟨hbefore, hnobody⟩
  · exact .inl hcovers
  · exact .inr ⟨q, hq, hholds⟩
  · -- another call holds it, and has not moved
    rcases h id suffix hbefore with hcovers | ⟨r, hr, hholds⟩
    · exact absurd (.inl hcovers) hnobody
    · obtain ⟨j, hj⟩ := List.mem_iff_getElem?.mp hr
      by_cases hij : j = i
      · subst hij
        obtain rfl := Option.some.inj (hp.symm.trans hj)
        exact absurd (.inr hholds) hnobody
      · exact .inr ⟨r, List.mem_of_getElem? ((set_other hij).trans hj), hholds⟩

/-- What a purge leaves is another message's, or nobody's to purge. -/
theorem covers_erase {w : Shared} {i : Nat} {front key : Text} (hi : w.purges[i]? = some front)
    (h : w.Covers key) :
    ({ w with purges := w.purges.eraseIdx i } : Shared).Covers key ∨ front <+: key := by
  rcases h with hrow | ⟨front', hfront', hkey⟩ | hlost
  · exact .inl (.inl hrow)
  · obtain ⟨j, hj⟩ := List.mem_iff_getElem?.mp hfront'
    by_cases hij : j = i
    · subst hij
      obtain rfl := Option.some.inj (hi.symm.trans hj)
      exact .inr hkey
    · exact .inl (.inr (.inl ⟨front', List.mem_eraseIdx_iff_getElem?.mpr ⟨j, hij, hj⟩, hkey⟩))
  · exact .inl (.inr (.inr hlost))

theorem step_accounted {l : Label} (h : s.Accounted) (hok : s.Ok env)
    (hstep : s.step env l = some s') : s'.Accounted := by
  cases l with
  | post userId request =>
    simp only [Sys.step] at hstep
    split at hstep <;> cases hstep
    intro id suffix hfile
    refine (h id suffix hfile).imp_right ?_
    rintro ⟨p, hp, hholds⟩
    exact ⟨p, List.mem_append_left _ hp, hholds⟩
  | act i c => exact h.act hok hstep
  | purge i acked stuck =>
    obtain ⟨front, hfront, rfl⟩ := Option.map_eq_some_iff.mp hstep
    intro id suffix hfile
    have hfile : (s.shared.deletePrefix front stuck).storage (originalKey id suffix) ≠ none := by
      cases acked <;> exact hfile
    obtain ⟨hbefore, hleft⟩ := deletePrefix_left hfile
    refine (h id suffix hbefore).imp_left fun hcovers => ?_
    have hcovers' : (s.shared.deletePrefix front stuck).Covers (originalKey id suffix) :=
      covers_deletePrefix hcovers
    cases acked with
    | false => exact hcovers'
    | true =>
      rcases covers_erase (w := s.shared.deletePrefix front stuck) hfront hcovers' with
        hother | hkey
      · exact hother
      · -- a file below the prefix that is still there was stuck
        exact .inr (.inr (hleft hkey))
  | losePurge i =>
    obtain ⟨front, hfront, rfl⟩ := Option.map_eq_some_iff.mp hstep
    intro id suffix hfile
    refine (h id suffix hfile).imp_left fun hcovers => ?_
    rcases covers_erase hfront hcovers with hcovers | hkey
    · exact covers_lose hcovers front
    · exact .inr (.inr ⟨front, List.mem_append_right _ (List.mem_singleton.mpr rfl), hkey⟩)
  | normalize documentId data =>
    cases hstep
    intro id suffix hfile
    have hsame : s.shared.storage.put (normalizedKey documentId) data (originalKey id suffix) =
        s.shared.storage (originalKey id suffix) :=
      storage_put_of_ne (originalKey_ne_normalizedKey _ _ _)
    refine h id suffix ?_
    rw [← hsame]
    exact hfile
  | move documentId status error now =>
    cases hstep
    intro id suffix hfile
    exact (h id suffix hfile).imp_left covers_update

theorem run_accounted {ls : List Label} (hrun : run (Sys.step env) start ls = some s) :
    s.Ok env ∧ s.Accounted := by
  have hstep : ∀ (s : Sys) l s', s.Ok env ∧ s.Accounted → s.step env l = some s' →
      s'.Ok env ∧ s'.Accounted :=
    fun _ _ _ h hstep => ⟨step_ok h.1 hstep, step_accounted h.2 h.1 hstep⟩
  exact run_invariant_of_step hstep ⟨start_ok, fun _ _ hfile => absurd rfl hfile⟩ hrun

end System

/-- **Every file is somebody's.** -/
theorem originals_accounted (env : Env) {ls : List Label} {s : Sys}
    (hrun : run (Sys.step env) start ls = some s) :
    -- the file of every document is there, under a key of its own
    (∀ row ∈ s.shared.db.documents.rows, ∃ suffix data,
      row.storageKey = originalKey row.id suffix ∧
      s.shared.storage (originalKey row.id suffix) = some data ∧
      env.sha256 data = row.checksum ∧ data.length = row.sizeBytes) ∧
    -- a file is a document's, to be purged, lost, or held by a call
    (∀ id suffix, s.shared.storage (originalKey id suffix) ≠ none →
      s.shared.Covers (originalKey id suffix) ∨
        ∃ p ∈ s.parties, p.pc.Holds (originalKey id suffix)) ∧
    -- at rest the files are those of the documents
    ((∀ p ∈ s.parties, p.pc.ended = true) → s.shared.purges = [] → s.shared.lost = [] →
      ∀ id suffix, s.shared.storage (originalKey id suffix) ≠ none ↔
        ∃ row ∈ s.shared.db.documents.rows, row.storageKey = originalKey id suffix) := by
  obtain ⟨hok, haccounted⟩ := run_accounted hrun
  have hshared := hok.holds.shared
  refine ⟨fun row hrow => ?_, haccounted, fun hended hpurges hlost id suffix =>
    ⟨fun hfile => ?_, ?_⟩⟩
  · obtain ⟨suffix, hkey⟩ := hshared.key row hrow
    obtain ⟨data, hdata, hsha, hsize⟩ := hshared.stored row hrow
    exact ⟨suffix, data, hkey, hkey ▸ hdata, hsha, hsize⟩
  · rcases haccounted id suffix hfile with (hrow | ⟨front, hfront, -⟩ | ⟨front, hfront, -⟩) |
      ⟨p, hp, hholds⟩
    · exact hrow
    · simp [hpurges] at hfront
    · simp [hlost] at hfront
    · have hpc := hended p hp
      cases hcase : p.pc <;> simp [hcase, Pc.ended, Pc.Holds] at hpc hholds
  · rintro ⟨row, hrow, hkey⟩
    obtain ⟨data, hdata, -⟩ := hshared.stored row hrow
    rw [← hkey, hdata]
    simp

/-- The key of the sample's file, under an id. -/
def sampleKey (id : Uuid) : Text := originalKey id ".txt".toList

theorem sampleKey_inj {a b : Uuid} (h : sampleKey a = sampleKey b) : a = b := by
  have hb : storagePrefix b <+: sampleKey a := by
    rw [h]
    exact front_originalKey b _
  exact id_of_front (front_originalKey a _) hb

/-- After the two uploads of `bothRun` all is quiet, and the storage has the one file. -/
theorem originals_accounted_both :
    ∃ s, run (Sys.step Upload.sampleEnv) start bothRun = some s ∧
      ∀ id, s.shared.storage (sampleKey id) ≠ none ↔ id = 10 := by
  have hend : (run (Sys.step Upload.sampleEnv) start bothRun).map (fun s =>
      (s.parties.all fun p => p.pc.ended, s.shared.purges, s.shared.lost,
        s.shared.db.documents.rows.map DocumentRow.storageKey)) =
          some (true, [], [], [sampleKey 10]) := by decide
  obtain ⟨s, hs, heq⟩ := Option.map_eq_some_iff.mp hend
  obtain ⟨hended, heq⟩ := Prod.mk.inj heq
  obtain ⟨hpurges, heq⟩ := Prod.mk.inj heq
  obtain ⟨hlost, hkeys⟩ := Prod.mk.inj heq
  have hrest := (originals_accounted Upload.sampleEnv hs).2.2
    (fun p hp => List.all_eq_true.mp hended p hp) hpurges hlost
  refine ⟨s, hs, fun id => (hrest id ".txt".toList).trans ?_⟩
  have hmem : (∃ row ∈ s.shared.db.documents.rows, row.storageKey = sampleKey id) ↔
      sampleKey id ∈ [sampleKey 10] := by
    rw [← hkeys, List.mem_map]
  exact hmem.trans ⟨fun h => sampleKey_inj (List.mem_singleton.mp h), fun h => by simp [h]⟩

end AtlasKnowledge.Services.UploadSystem
