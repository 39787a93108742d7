/-
# What a deleted document leaves in the storage

`DocumentService.delete` removes the row and sends the purge; `purge_document` removes the
objects.  A parse execution that has claimed the document before writes `normalized.json` between
its two transactions, and does not look at the row again: after the purge, that object stays.

* `purged`: with the parse stage's write after a purge excluded, a deleted and purged document has
  no object left, in every run; and that write is the exact cause, since every run in which it
  happens can go on to a state at rest with the object still there;
* `not_purged`: a claim, a read, the delete, the purge and the write.
-/
import AtlasKnowledge.Pipeline.System

namespace AtlasKnowledge.Pipeline

open Interleave Transition

variable {ω : Type}

/-! ## 1. The property -/

/-- The system, with a note of whether the purge has run. -/
structure Purging (ω : Type) where
  ran : Bool
  sys : Sys ω

/-- A purge is executed. -/
def Label.isPurge : Label ω → Bool
  | .purge => true
  | _ => false

/-- A step of the system, with the ghost that remembers whether a purge has run. -/
def Purging.step (A : Adapters) (p : Purging ω) (l : Label ω) : Option (Purging ω) :=
  (p.sys.step A l).map fun s => ⟨p.ran || l.isPurge, s⟩

/-- Behind the upload, before any purge. -/
def Upload.purging (u : Upload) : Purging ω := ⟨false, u.sys⟩

/-- No execution of a task is in flight. -/
def Sys.TasksEnded (s : Sys ω) : Prop :=
  ∀ (i : Nat) (x : Exec ω), s.parties[i]? = some (.task x) → x.pc.isEnded = true

/-- Once the row is gone, the purge has run and no task is in flight, the storage is empty. -/
def Purging.Clean (p : Purging ω) : Prop :=
  p.sys.shared.doc = none → p.ran = true → p.sys.TasksEnded → ∀ k, p.sys.shared.objects k = none

/-- The parse stage writes `normalized.json` next. -/
def Pc.isWriting : {stage : Stage} → Pc ω stage → Bool
  | _, .writingNormalized _ => true
  | _, _ => false

/-- With this choice a write stores bytes: all of them, or so many before it goes on or raises. -/
def Choice.stores : Choice ω → Bool
  | .go | .part _ => true
  | .reply _ | .raise _ => false

/-- In this step a parse execution writes, the whole object or a part of it, and the purge has
run. -/
def WritesAfterPurge (p : Purging ω) : Label ω → Prop
  | .act i c => (c.stores = true ∧ p.ran = true) ∧
    ∃ x : Exec ω, p.sys.parties[i]? = some (.task x) ∧ x.pc.isWriting = true
  | _ => False

instance (p : Purging ω) (i : Nat) :
    Decidable (∃ x : Exec ω, p.sys.parties[i]? = some (.task x) ∧ x.pc.isWriting = true) :=
  match h : p.sys.parties[i]? with
  | some (.task x) => decidable_of_iff (x.pc.isWriting = true) (by simp)
  | some (.request _) | none => .isFalse (by simp)

instance (p : Purging ω) : DecidablePred (WritesAfterPurge p)
  | .act i c => inferInstanceAs (Decidable ((c.stores = true ∧ p.ran = true) ∧
      ∃ x : Exec ω, p.sys.parties[i]? = some (.task x) ∧ x.pc.isWriting = true))
  | .deliver _ | .request _ | .delete | .purge => .isFalse id

/-! ## 2. What a step does to the storage -/

variable {A : Adapters} {retries : Nat} {w w' : World ω} {stage : Stage} {pc pc' : Pc ω stage}
  {c : Choice ω}

/-- The row, the purge message and the storage, as one step may change them. -/
structure Storage (writes : Prop) (w w' : World ω) : Prop where
  gone : w.doc = none → w'.doc = none
  purgeSent : w'.purgeSent = w.purgeSent
  objects : w'.objects = w.objects ∨ writes

theorem Storage.refl {writes : Prop} (w : World ω) : Storage writes w w :=
  ⟨fun h => h, rfl, Or.inl rfl⟩

theorem claimTx_storage {writes : Prop} (h : claimTx stage w = some w') : Storage writes w w' := by
  obtain ⟨d, hd, -, -, -, -, hobjects, -⟩ := claimTx_eq_some h
  refine ⟨fun hnone => absurd (hd.symm.trans hnone) nofun, ?_, Or.inl hobjects⟩
  obtain ⟨w₁, hclaim, rfl⟩ := Option.map_eq_some_iff.mp h
  unfold World.claim at hclaim
  split at hclaim
  · split at hclaim
    · obtain rfl := Option.some.inj hclaim
      rfl
    · exact nomatch hclaim
  · exact nomatch hclaim

theorem succeedTx_storage {writes : Prop} (h : succeedTx stage w = some w') :
    Storage writes w w' := by
  obtain ⟨d, hd, -, -, -, hobjects⟩ := succeedTx_eq_some h
  refine ⟨fun hnone => absurd (hd.symm.trans hnone) nofun, ?_, Or.inl hobjects⟩
  unfold succeedTx at h
  split at h
  · obtain rfl := Option.some.inj h
    rfl
  · exact nomatch h

theorem replaceTx_storage {writes : Prop} {drafts : Drafts} (h : replaceTx drafts w = some w') :
    Storage writes w w' := by
  have hsucceed : Storage writes _ w' := succeedTx_storage h
  exact ⟨hsucceed.gone, hsucceed.purgeSent, hsucceed.objects⟩

theorem failTx_storage {writes : Prop} {error : String} (h : failTx stage error w = some w') :
    Storage writes w w' := by
  obtain ⟨d, hd, -, -, -, hobjects⟩ := failTx_eq_some h
  refine ⟨fun hnone => absurd (hd.symm.trans hnone) nofun, ?_, Or.inl hobjects⟩
  unfold failTx at h
  split at h
  · obtain rfl := Option.some.inj h
    rfl
  · exact nomatch h

theorem runStage_storage {writes : Prop} {e : Exc} (h : runStage stage retries w e = (w', pc')) :
    Storage writes w w' := by
  unfold runStage at h
  split at h
  · split at h
    · obtain ⟨rfl, -⟩ := Prod.mk.inj h
      exact Storage.refl _
    · unfold taskRetry at h
      split at h
      · obtain ⟨rfl, -⟩ := Prod.mk.inj h
        exact Storage.refl _
      · obtain ⟨rfl, -⟩ := Prod.mk.inj h
        exact ⟨fun h => h, rfl, Or.inl rfl⟩
  · split at h <;> obtain ⟨rfl, -⟩ := Prod.mk.inj h <;> exact Storage.refl _

theorem commitOr_storage {writes : Prop} {tx : Option (World ω)} {next : Pc ω stage}
    (htx : ∀ w', tx = some w' → Storage writes w w') :
    Storage writes w (commitOr stage retries w tx next).1 := by
  cases tx with
  | none => exact runStage_storage (e := foreignKeyViolation) rfl
  | some w' => exact htx w' rfl

/-- **Only the parse stage's write touches the storage.** -/
theorem goPc_storage (h : goPc A retries w pc = some (w', pc')) :
    Storage (pc.isWriting = true) w w' := by
  cases pc with
  | start =>
    obtain h := Option.some.inj h
    split at h
    · rename_i hclaim
      obtain ⟨rfl, -⟩ := Prod.mk.inj h
      exact claimTx_storage hclaim
    · obtain ⟨rfl, -⟩ := Prod.mk.inj h
      exact Storage.refl _
  | claimed =>
    obtain h := Option.some.inj h
    split at h <;> obtain ⟨rfl, -⟩ := Prod.mk.inj h <;> exact Storage.refl _
  | writingNormalized normalized =>
    obtain ⟨rfl, -⟩ := Prod.mk.inj (Option.some.inj h)
    exact ⟨fun h => h, rfl, Or.inr rfl⟩
  | finishingParse =>
    obtain ⟨rfl, -⟩ := Prod.mk.inj (Option.some.inj h)
    exact commitOr_storage fun _ hw => succeedTx_storage hw
  | replacing drafts =>
    obtain ⟨rfl, -⟩ := Prod.mk.inj (Option.some.inj h)
    exact commitOr_storage fun _ hw => replaceTx_storage hw
  | batching =>
    obtain h := Option.some.inj h
    split at h <;> obtain ⟨rfl, -⟩ := Prod.mk.inj h <;> exact Storage.refl _
  | embedding batch => exact absurd h (by simp [goPc])
  | storing batch vectors =>
    obtain ⟨rfl, -⟩ := Prod.mk.inj (Option.some.inj h)
    exact ⟨fun h => h, rfl, Or.inl rfl⟩
  | finishingEmbed =>
    obtain ⟨rfl, -⟩ := Prod.mk.inj (Option.some.inj h)
    exact commitOr_storage fun _ hw => succeedTx_storage hw
  | failing error =>
    obtain ⟨rfl, -⟩ := Prod.mk.inj (Option.some.inj h)
    exact commitOr_storage fun _ hw => failTx_storage hw
  | enqueueing next =>
    obtain ⟨rfl, -⟩ := Prod.mk.inj (Option.some.inj h)
    exact ⟨fun h => h, rfl, Or.inl rfl⟩
  | marking error =>
    obtain h := Option.some.inj h
    split at h
    · rename_i hfail
      obtain ⟨rfl, -⟩ := Prod.mk.inj h
      exact failTx_storage hfail
    · obtain ⟨rfl, -⟩ := Prod.mk.inj h
      exact Storage.refl _
  | ended how => exact absurd h (by simp [goPc])
  | _ =>
    obtain ⟨rfl, -⟩ := Prod.mk.inj (Option.some.inj h)
    exact Storage.refl _

theorem stepPc_storage (h : stepPc A retries w pc c = some (w', pc')) :
    Storage (pc.isWriting = true ∧ c.stores = true) w w' := by
  cases c with
  | go =>
    have hgo := goPc_storage h
    exact ⟨hgo.gone, hgo.purgeSent, hgo.objects.imp_right fun hw => ⟨hw, rfl⟩⟩
  | reply r =>
    have h : replyPc retries w r pc = some (w', pc') := h
    cases pc with
    | embedding batch =>
      obtain h := Option.some.inj h
      split at h
      · split at h
        · obtain ⟨rfl, -⟩ := Prod.mk.inj h
          exact Storage.refl _
        · exact runStage_storage h
      · split at h
        · exact runStage_storage h
        · obtain ⟨rfl, -⟩ := Prod.mk.inj h
          exact Storage.refl _
    | _ => exact absurd h (by simp [replyPc])
  | raise e =>
    have h : raisePc retries w e pc = some (w', pc') := h
    cases pc with
    | ended how => exact absurd h (by simp [raisePc])
    | marking error =>
      obtain ⟨rfl, -⟩ := Prod.mk.inj (Option.some.inj h)
      exact Storage.refl _
    | _ => exact runStage_storage (Option.some.inj h)
  | part size =>
    have h : partPc A w size pc = some (w', pc') := h
    cases pc with
    | writingNormalized normalized =>
      obtain ⟨rfl, -⟩ := Prod.mk.inj (Option.some.inj h)
      exact ⟨fun h => h, rfl, Or.inr ⟨rfl, rfl⟩⟩
    | _ => exact absurd h (by simp [partPc])

/-! ## 3. The invariant -/

/-- A request leaves the storage alone, and brings no row back. -/
theorem requestMoves_storage {writes : Prop} {kind : RequestKind} {pc pc' : RequestPc}
    (h : RequestMoves w kind pc w' pc') : Storage writes w w' := by
  obtain ⟨-, -, hobjects, hsent, hdoc⟩ := h.frame
  exact ⟨hdoc.mp, hsent, Or.inl hobjects⟩

/-- In this step a parse execution writes. -/
def Writes (s : Sys ω) (l : Label ω) : Prop :=
  ∃ (i : Nat) (c : Choice ω) (x : Exec ω), l = .act i c ∧ c.stores = true ∧
    s.parties[i]? = some (.task x) ∧ x.pc.isWriting = true

theorem writesAfterPurge_iff {p : Purging ω} {l : Label ω} :
    WritesAfterPurge p l ↔ p.ran = true ∧ Writes p.sys l := by
  constructor
  · intro h
    cases l with
    | act i c =>
      obtain ⟨⟨hstores, hran⟩, x, hx, hw⟩ := h
      exact ⟨hran, i, c, x, rfl, hstores, hx, hw⟩
    | _ => exact absurd h id
  · rintro ⟨hran, i, c, x, rfl, hstores, hx, hw⟩
    exact ⟨⟨hstores, hran⟩, x, hx, hw⟩

/-- **What a step does to the row, the purge message and the storage**: it is the deletion, the
purge, or a step that touches the storage only as the parse stage's write. -/
theorem step_storage {s s' : Sys ω} {l : Label ω} (h : s.step A l = some s') :
    (l = .delete ∧ s'.shared.doc = none ∧ s'.shared.purgeSent = true ∧
      s'.shared.objects = s.shared.objects) ∨
    (l = .purge ∧ s.shared.purgeSent = true ∧ s'.shared.purgeSent = true ∧
      s'.shared.doc = s.shared.doc ∧ ∀ k, s'.shared.objects k = none) ∨
    (l.isPurge = false ∧ Storage (Writes s l) s.shared s'.shared) := by
  cases l with
  | deliver n =>
    obtain ⟨m, -, rfl⟩ := Option.map_eq_some_iff.mp h
    exact Or.inr (Or.inr ⟨rfl, Storage.refl _⟩)
  | request kind =>
    simp only [Sys.step] at h
    split at h
    · cases h
    · obtain rfl := Option.some.inj h
      exact Or.inr (Or.inr ⟨rfl, Storage.refl _⟩)
  | act i c =>
    obtain ⟨p, w, q, hp, hstep, rfl⟩ := Par.act_eq_some.mp h
    refine Or.inr (Or.inr ⟨rfl, ?_⟩)
    cases p with
    | task x =>
      obtain ⟨⟨w', pc⟩, hpc, heq⟩ := Option.map_eq_some_iff.mp hstep
      obtain ⟨rfl, rfl⟩ := Prod.mk.inj heq
      have hstorage := stepPc_storage hpc
      refine ⟨hstorage.gone, hstorage.purgeSent, hstorage.objects.imp_right ?_⟩
      rintro ⟨hwriting, hstores⟩
      exact ⟨i, c, x, rfl, hstores, hp, hwriting⟩
    | request r =>
      cases c with
      | go =>
        obtain ⟨⟨w', pc⟩, hpc, heq⟩ := Option.map_eq_some_iff.mp hstep
        obtain ⟨rfl, rfl⟩ := Prod.mk.inj heq
        exact requestMoves_storage (goRequest_moves hpc)
      | raise e =>
        obtain ⟨pc, -, heq⟩ := Option.map_eq_some_iff.mp hstep
        obtain ⟨rfl, rfl⟩ := Prod.mk.inj heq
        exact Storage.refl _
      | reply r => cases hstep
      | part size => cases hstep
  | delete =>
    obtain ⟨w, hw, rfl⟩ := Option.map_eq_some_iff.mp h
    obtain ⟨d, -, rfl⟩ := Option.map_eq_some_iff.mp hw
    exact Or.inl ⟨rfl, rfl, rfl, rfl⟩
  | purge =>
    obtain ⟨w, hw, rfl⟩ := Option.map_eq_some_iff.mp h
    unfold World.purge at hw
    split at hw
    · rename_i hsent
      obtain rfl := Option.some.inj hw
      exact Or.inr (Or.inl ⟨rfl, hsent, hsent, rfl, fun _ => rfl⟩)
    · cases hw

/-- The purge runs only after the row is gone, and the row never comes back. -/
structure Purging.Ordered (p : Purging ω) : Prop where
  sent : p.ran = true → p.sys.shared.purgeSent = true
  gone : p.sys.shared.purgeSent = true → p.sys.shared.doc = none

theorem Purging.step_eq_some {p p' : Purging ω} {l : Label ω} (h : p.step A l = some p') :
    p.sys.step A l = some p'.sys ∧ p'.ran = (p.ran || l.isPurge) := by
  obtain ⟨s, hs, rfl⟩ := Option.map_eq_some_iff.mp h
  exact ⟨hs, rfl⟩

theorem step_ordered {p p' : Purging ω} {l : Label ω} (ho : p.Ordered)
    (h : p.step A l = some p') : p'.Ordered := by
  obtain ⟨hstep, hran⟩ := Purging.step_eq_some h
  rcases step_storage hstep with ⟨rfl, hdoc, hsent, -⟩ | ⟨rfl, hs, hsent, hdoc, -⟩ |
    ⟨hno, hstorage⟩
  · exact ⟨fun _ => hsent, fun _ => hdoc⟩
  · exact ⟨fun _ => hsent, fun _ => hdoc.trans (ho.gone hs)⟩
  · rw [hno, Bool.or_false] at hran
    constructor
    · intro hr
      rw [hstorage.purgeSent]
      exact ho.sent (hran.symm.trans hr)
    · intro hs
      exact hstorage.gone (ho.gone (hstorage.purgeSent.symm.trans hs))

theorem upload_ordered (u : Upload) : (u.purging (ω := ω)).Ordered :=
  ⟨nofun, nofun⟩

/-- After the purge nothing is stored. -/
def Purging.Empty (p : Purging ω) : Prop :=
  p.ran = true → ∀ k, p.sys.shared.objects k = none

/-- **One step keeps a purged storage empty**, unless it is the parse stage's write. -/
theorem step_empty {p p' : Purging ω} {l : Label ω} (he : p.Empty)
    (hno : ¬ WritesAfterPurge p l) (h : p.step A l = some p') : p'.Empty := by
  obtain ⟨hstep, hran⟩ := Purging.step_eq_some h
  rcases step_storage hstep with ⟨rfl, -, -, hobjects⟩ | ⟨rfl, -, -, -, hnone⟩ |
    ⟨hnot, hstorage⟩
  · intro hr
    rw [hobjects]
    exact he (by simpa [Label.isPurge] using hran.symm.trans hr)
  · exact fun _ => hnone
  · intro hr
    have hrun : p.ran = true := by simpa [hnot] using hran.symm.trans hr
    rcases hstorage.objects with hsame | hwrites
    · rw [hsame]
      exact he hrun
    · exact absurd (writesAfterPurge_iff.mpr ⟨hrun, hwrites⟩) hno

/-- What holds between the steps of a run without such a write. -/
structure Purging.Inv (p : Purging ω) : Prop where
  ordered : p.Ordered
  empty : p.Empty

theorem upload_purgingInv (u : Upload) : (u.purging (ω := ω)).Inv := ⟨upload_ordered u, nofun⟩

/-! ## 4. The write leaves its object for good -/

theorem wrapOsError_softTimeLimit (pc : Pc ω stage) :
    wrapOsError pc .softTimeLimit = .softTimeLimit := by cases pc <;> rfl

/-- The soft time limit ends an execution wherever it stands: in the stage it leads to the
shell's `_fail`, and there it is swallowed. -/
theorem raise_ends (A : Adapters) (s : Sys ω) {i : Nat} {x : Exec ω}
    (hx : s.parties[i]? = some (.task x)) (hpc : x.pc.isEnded = false) :
    ∃ (ls : List (Label ω)) (how : Ending), (∀ l ∈ ls, l.isPurge = false) ∧
      run (Sys.step A) s ls =
        some ⟨s.shared, s.parties.set i (.task { x with pc := .ended how })⟩ := by
  obtain ⟨stage, retries, pc⟩ := x
  -- the shell's `_fail` is interrupted as well
  have hlost : Sys.step A
      ⟨s.shared, s.parties.set i (.task ⟨stage, retries, .marking (timeoutText stage)⟩)⟩
      (.act i (.raise .softTimeLimit)) =
        some ⟨s.shared, s.parties.set i (.task ⟨stage, retries, .ended .markLost⟩)⟩ := by
    have hstep := step_task (A := A) (c := .raise .softTimeLimit) (w := s.shared)
      (x := ⟨stage, retries, .marking (timeoutText stage)⟩)
      (s := ⟨s.shared, s.parties.set i (.task ⟨stage, retries, .marking (timeoutText stage)⟩)⟩)
      (set_self hx) rfl
    rwa [List.set_set] at hstep
  cases pc with
  | marking error =>
    refine ⟨[.act i (.raise .softTimeLimit)], .markLost, by simp [Label.isPurge], ?_⟩
    have hstep := step_task (A := A) (c := .raise .softTimeLimit) (w := s.shared) hx rfl
    simp [hstep]
  | ended how => exact nomatch hpc
  | _ =>
    refine ⟨[.act i (.raise .softTimeLimit), .act i (.raise .softTimeLimit)], .markLost,
      by simp [Label.isPurge], ?_⟩
    rw [run_cons, step_task hx (by simp only [stepPc, raisePc, wrapOsError_softTimeLimit]; rfl)]
    simp [hlost]

/-- All executions can be brought to an end without a change to the world. -/
theorem ends_tasks (A : Adapters) (s : Sys ω) : ∀ n : Nat,
    ∃ (ls : List (Label ω)) (s' : Sys ω), (∀ l ∈ ls, l.isPurge = false) ∧
      run (Sys.step A) s ls = some s' ∧ s'.shared = s.shared ∧
      s'.parties.length = s.parties.length ∧
      ∀ i < n, ∀ x : Exec ω, s'.parties[i]? = some (.task x) → x.pc.isEnded = true := by
  intro n
  induction n with
  | zero => exact ⟨[], s, by simp, rfl, rfl, rfl, fun i hi => absurd hi (Nat.not_lt_zero i)⟩
  | succ n ih =>
    obtain ⟨ls, s₁, hls, hrun, hshared, hlen, hended⟩ := ih
    -- the party at `n` is the next to be ended, if it is an execution at all
    by_cases hnext : ∃ x : Exec ω, s₁.parties[n]? = some (.task x) ∧ x.pc.isEnded = false
    · obtain ⟨x, hx, hpc⟩ := hnext
      obtain ⟨ls', how, hls', hrun'⟩ := raise_ends A s₁ hx hpc
      refine ⟨ls ++ ls', _, ?_, run_append_eq_some.mpr ⟨s₁, hrun, hrun'⟩, hshared, ?_, ?_⟩
      · intro l hl
        rcases List.mem_append.mp hl with hl | hl
        · exact hls l hl
        · exact hls' l hl
      · simpa using hlen
      · intro i hi y hy
        rcases set_cases hy with ⟨-, heq⟩ | ⟨hne, hold⟩
        · obtain rfl := Party.task.inj heq
          rfl
        · exact hended i (by omega) y hold
    · refine ⟨ls, s₁, hls, hrun, hshared, hlen, ?_⟩
      intro i hi x hx
      by_cases hin : i = n
      · subst hin
        cases hpc : x.pc.isEnded with
        | true => rfl
        | false => exact absurd ⟨x, hx, hpc⟩ hnext
      · exact hended i (by omega) x hx

/-- Without a purge among its labels, a run of the system is one with the same note. -/
theorem run_purging {b : Bool} : ∀ {ls : List (Label ω)} {s s' : Sys ω},
    (∀ l ∈ ls, l.isPurge = false) → run (Sys.step A) s ls = some s' →
      run (Purging.step A) ⟨b, s⟩ ls = some ⟨b, s'⟩ := by
  intro ls
  induction ls with
  | nil =>
    intro s s' _ hrun
    obtain rfl : s = s' := by simpa using hrun
    rfl
  | cons l ls ih =>
    intro s s' hls hrun
    obtain ⟨s₁, hl, hrest⟩ := Option.bind_eq_some_iff.mp hrun
    have hstep : Purging.step A ⟨b, s⟩ l = some ⟨b, s₁⟩ := by
      simp [Purging.step, hl, hls l List.mem_cons_self]
    simp [hstep, ih (fun l hl => hls l (List.mem_cons_of_mem _ hl)) hrest]

/-- The write leaves `normalized.json` in the storage, whole or cut short. -/
theorem writes_object {s s' : Sys ω} {l : Label ω} (hw : Writes s l)
    (h : s.step A l = some s') : ∃ data, s'.shared.objects .normalized = some data := by
  obtain ⟨i, c, ⟨stage, retries, pc⟩, rfl, hstores, hx, hwriting⟩ := hw
  cases pc with
  | writingNormalized normalized =>
    cases c with
    | go =>
      have hstep : stepPc A retries s.shared (.writingNormalized normalized) .go = some
          (s.shared.put .normalized (A.dump normalized), .finishingParse) := rfl
      obtain rfl := Option.some.inj ((step_task hx hstep).symm.trans h)
      exact ⟨A.dump normalized, by simp [World.put]⟩
    | part size =>
      have hstep : stepPc A retries s.shared (.writingNormalized normalized) (.part size) = some
          (s.shared.put .normalized ((A.dump normalized).take size),
            .writingNormalized normalized) := rfl
      obtain rfl := Option.some.inj ((step_task hx hstep).symm.trans h)
      exact ⟨(A.dump normalized).take size, by simp [World.put]⟩
    | _ => exact nomatch hstores
  | _ => exact absurd hwriting (by simp [Pc.isWriting])

/-- **The write does harm.**  After a write behind the purge, the run can come to rest with the
object still stored. -/
theorem write_breaks {p p' : Purging ω} {l : Label ω} (ho : p.Ordered)
    (hwrites : WritesAfterPurge p l) (h : p.step A l = some p') :
    ∃ ls p'', run (Purging.step A) p' ls = some p'' ∧ ¬ p''.Clean := by
  obtain ⟨hran, hw⟩ := writesAfterPurge_iff.mp hwrites
  have ho' := step_ordered ho h
  obtain ⟨hstep, hran'⟩ := Purging.step_eq_some h
  have hran' : p'.ran = true := by rw [hran', hran, Bool.true_or]
  obtain ⟨data, hdata⟩ := writes_object hw hstep
  obtain ⟨ls, s, hls, hrun, hshared, hlen, hended⟩ :=
    ends_tasks A p'.sys p'.sys.parties.length
  refine ⟨ls, ⟨p'.ran, s⟩, run_purging hls hrun, fun hclean => ?_⟩
  have hrest : s.TasksEnded := by
    intro i x hx
    obtain ⟨hi, -⟩ := List.getElem?_eq_some_iff.mp hx
    exact hended i (hlen ▸ hi) x hx
  have hnone := hclean (hshared ▸ ho'.gone (ho'.sent hran')) hran' hrest .normalized
  rw [hshared, hdata] at hnone
  exact nomatch hnone

/-! ## 5. The result -/

/-- **A deleted document's storage is emptied for good, exactly without a write behind the
purge.**  From the commit of an upload on, in every run in which no parse execution stores bytes
after the purge, the storage is empty once the row is gone, the purge has run and no task is in
flight; and every run in which such a write happens can go on to a state at rest that still
stores the object. -/
theorem purged (A : Adapters) (u : Upload) :
    (∀ (ls : List (Label ω)) (p : Purging ω),
      Guarded (Purging.step A) (fun p l => ¬ WritesAfterPurge p l) u.purging ls →
      run (Purging.step A) u.purging ls = some p → p.Clean) ∧
    (∀ (ls : List (Label ω)) (p p' : Purging ω) (l : Label ω),
      run (Purging.step A) u.purging ls = some p → p.step A l = some p' →
      WritesAfterPurge p l →
      ∃ ls' p'', run (Purging.step A) u.purging (ls ++ l :: ls') = some p'' ∧ ¬ p''.Clean) := by
  constructor
  · intro ls p hg hrun
    have hinv : p.Inv := run_invariant
      (fun _ _ _ hi hno h => ⟨step_ordered hi.ordered h, step_empty hi.empty hno h⟩)
      (upload_purgingInv u) hg hrun
    exact fun _ hran _ => hinv.empty hran
  · intro ls p p' l hrun hl hw
    have ho : p.Ordered :=
      run_invariant_of_step (fun _ _ _ ho h => step_ordered ho h) (upload_ordered u) hrun
    obtain ⟨ls', p'', hrun', hbad⟩ := write_breaks ho hw hl
    exact ⟨ls', p'', run_append_eq_some.mpr ⟨p, hrun, by simp [hl, hrun']⟩, hbad⟩

/-- A document deleted and purged before its parse message is delivered: the execution then
claims nothing and the storage stays empty. -/
theorem purged_beforeParse :
    ∃ p, run (Purging.step (ω := Nat) sampleAdapters) sampleUpload.purging
        [.act 0 .go, .delete, .purge, .deliver 0, .act 1 .go, .act 1 .go] = some p ∧
      p.sys.shared.doc = none ∧ p.ran = true ∧ p.Clean := by
  have hend : (run (Purging.step (ω := Nat) sampleAdapters) sampleUpload.purging
      [.act 0 .go, .delete, .purge, .deliver 0, .act 1 .go, .act 1 .go]).map
        (fun p => (p.sys.shared.doc, p.ran)) = some (none, true) := by decide
  obtain ⟨p, hp, heq⟩ := Option.map_eq_some_iff.mp hend
  obtain ⟨hdoc, hran⟩ := Prod.mk.inj heq
  exact ⟨p, hp, hdoc, hran, (purged sampleAdapters sampleUpload).1 _ p (by decide) hp⟩

/-- The parse execution has claimed and read the document when the row is deleted and the
storage purged; it then writes and finds no row for its `_succeed`, and its retry finds nothing to
claim. -/
def orphanRun : List (Label Nat) :=
  [.act 0 .go, .deliver 0, .act 1 .go, .act 1 .go, .act 1 .go, .delete, .purge, .act 1 .go,
    .act 1 .go, .deliver 1, .act 2 .go, .act 2 .go]

/-- **An orphan is possible.**  A run reaches a state at rest after deletion and purge that still
stores `normalized.json`. -/
theorem not_purged :
    ¬ ∀ (A : Adapters) (u : Upload) (ls : List (Label Nat)) (p : Purging Nat),
      run (Purging.step A) u.purging ls = some p → p.Clean := by
  intro h
  have hend : (run (Purging.step sampleAdapters) sampleUpload.purging orphanRun).map
      (fun p => (p.sys.shared.doc, p.ran, p.sys.shared.objects .normalized,
        p.sys.parties.all fun q => match q with
          | .task x => x.pc.isEnded
          | .request _ => true)) = some (none, true, some [], true) := by decide
  obtain ⟨p, hp, heq⟩ := Option.map_eq_some_iff.mp hend
  simp only [Prod.mk.injEq, List.all_eq_true] at heq
  obtain ⟨hdoc, hran, hobject, hended⟩ := heq
  have hclean := h _ _ _ _ hp hdoc hran
    (fun i x hx => hended (.task x) (List.mem_of_getElem? hx)) .normalized
  rw [hobject] at hclean
  exact nomatch hclean

end AtlasKnowledge.Pipeline
