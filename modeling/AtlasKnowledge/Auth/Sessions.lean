/-
# What holds of the refresh tokens in every run

The invariant that every interleaving of login, refresh and logout keeps, races included: a row
of the table was written by the call whose number it bears, which is done; a family's first row
is in the table; and a call in progress knows what it knows.  So what a call in progress is
about to insert is new (`Base.fresh`), and a refresh that has read its row and whose user is
active can go on to its commit whatever happened meanwhile (`holder_commits`).
-/
import AtlasKnowledge.Auth.Service

namespace AtlasKnowledge.Auth

open Interleave Transition

/-! ## 1. The invariant -/

/-- The call is over. -/
def Pc.isDone : Pc → Bool
  | .done _ _ => true
  | _ => false

/-- The row is in the table, whatever has become of its revocation. -/
def Known (t : TokenTable) (row : TokenRow) : Prop :=
  ∃ r ∈ t.rows, r.id = row.id ∧ r.familyId = row.familyId ∧ r.userId = row.userId

/-- The table has a row of the family. -/
def Used (t : TokenTable) (familyId : Id) : Prop := ∃ r ∈ t.rows, r.familyId = familyId

/-- A row that `_issue` has made for the call and that is not committed yet. -/
structure Issued (serial familyId : Id) (new : TokenRow) : Prop where
  id : new.id = serial
  tokenHash : new.tokenHash = .sha256 serial
  familyId : new.familyId = familyId
  live : new.revokedAt = none

/-- What a call in progress knows. -/
def Local (db : Db) (serial : Nat) : Pc → Prop
  | .loginCommit _ _ new => Issued serial serial new
  | .refreshUser _ row _ => Known db.tokens row
  | .refreshInsert _ row _ _ => Known db.tokens row ∧ db.active row.userId = true
  | .refreshUpdate _ row _ new =>
    Known db.tokens row ∧ db.active row.userId = true ∧ Issued serial row.familyId new
  | .refreshCommit _ row _ new =>
    Known db.tokens row ∧ db.active row.userId = true ∧ Issued serial row.familyId new
  | .revoking _ familyId _ => Used db.tokens familyId
  | .revokeCommit _ familyId _ _ => Used db.tokens familyId
  | .done _ (.revoked familyId) => Used db.tokens familyId
  | _ => True

/-- What every run keeps. -/
structure Base (s : Sys) : Prop where
  serial : ∀ (i : Nat) (c : Call), s.parties[i]? = some c → c.serial = i
  writer : ∀ r ∈ s.shared.tokens.rows, ∃ c, s.parties[r.id]? = some c ∧ c.pc.isDone = true
  tokenHash : ∀ r ∈ s.shared.tokens.rows, r.tokenHash = .sha256 r.id
  root : ∀ r ∈ s.shared.tokens.rows, ∃ r₀ ∈ s.shared.tokens.rows, r₀.id = r.familyId
  knows : ∀ (i : Nat) (c : Call), s.parties[i]? = some c → Local s.shared c.serial c.pc

theorem start_base (users : List User) : Base (start users) where
  serial := fun i c hc => by simp [start] at hc
  writer := fun r hr => by simp [start, TokenTable.empty] at hr
  tokenHash := fun r hr => by simp [start, TokenTable.empty] at hr
  root := fun r hr => by simp [start, TokenTable.empty] at hr
  knows := fun i c hc => by simp [start] at hc

/-- The identifier a call in progress has drawn is not in the table. -/
theorem Base.fresh {s : Sys} (hs : Base s) {i : Nat} {c : Call} (hc : s.parties[i]? = some c)
    (hdone : c.pc.isDone = false) : ∀ r ∈ s.shared.tokens.rows, r.id ≠ i := by
  rintro r hr rfl
  obtain ⟨d, hd, hd'⟩ := hs.writer r hr
  rw [hc] at hd
  obtain rfl := Option.some.inj hd
  rw [hdone] at hd'
  exact nomatch hd'

/-- Nor is there a row, or a row some refresh holds, of the family it would open. -/
theorem Base.fresh_family {s : Sys} (hs : Base s) {i : Nat} {c : Call}
    (hc : s.parties[i]? = some c) (hdone : c.pc.isDone = false) :
    ∀ r ∈ s.shared.tokens.rows, r.familyId ≠ i := by
  rintro r hr rfl
  obtain ⟨r₀, hr₀, hroot⟩ := hs.root r hr
  exact hs.fresh hc hdone r₀ hr₀ hroot

/-- A family in use is not the one a call in progress would open. -/
theorem Base.used_ne {s : Sys} (hs : Base s) {i : Nat} {c : Call} (hc : s.parties[i]? = some c)
    (hdone : c.pc.isDone = false) {familyId : Id} (h : Used s.shared.tokens familyId) :
    familyId ≠ i := by
  obtain ⟨r, hr, rfl⟩ := h
  exact hs.fresh_family hc hdone r hr

/-- Two rows that are known under one id are of one family and one user. -/
theorem Known.same {t : TokenTable} {row row' : TokenRow} (h : Known t row) (h' : Known t row')
    (hid : row.id = row'.id) : row.familyId = row'.familyId ∧ row.userId = row'.userId := by
  obtain ⟨r, hr, hrid, hfamily, huser⟩ := h
  obtain ⟨r', hr', hrid', hfamily', huser'⟩ := h'
  obtain rfl := eq_of_row_id hr hr' (by rw [hrid, hrid', hid])
  exact ⟨hfamily.symm.trans hfamily', huser.symm.trans huser'⟩

theorem Known.of_mem {t : TokenTable} {row : TokenRow} (h : row ∈ t.rows) : Known t row :=
  ⟨row, h, rfl, rfl, rfl⟩

/-! ## 2. How the tables grow -/

/-- Every row after is a row before, up to its revocation, or the new one. -/
structure Grows (db db' : Db) (new : Option TokenRow) : Prop where
  active : ∀ userId, db'.active userId = db.active userId
  known : ∀ row, Known db.tokens row → Known db'.tokens row
  old : ∀ r' ∈ db'.tokens.rows, (∃ r ∈ db.tokens.rows, r.id = r'.id ∧
    r.familyId = r'.familyId ∧ r.userId = r'.userId ∧ r.tokenHash = r'.tokenHash) ∨
      ∃ row ∈ new, row.id = r'.id ∧ row.familyId = r'.familyId ∧ row.tokenHash = r'.tokenHash
  added : ∀ row ∈ new, Known db'.tokens row

theorem Grows.refl (db : Db) : Grows db db none where
  active := fun _ => rfl
  known := fun _ h => h
  old := fun r hr => Or.inl ⟨r, hr, rfl, rfl, rfl, rfl⟩
  added := fun _ h => nomatch h

/-- An update of the revocation columns keeps every row known. -/
theorem Known.update {t : TokenTable} {change : TokenRow → Option Time × Option Id}
    {row : TokenRow} (h : Known t row) : Known (t.update change) row := by
  obtain ⟨r, hr, hid, hfamily, huser⟩ := h
  exact ⟨_, mem_update.mpr ⟨r, hr, rfl⟩, hid, hfamily, huser⟩

theorem Known.insert {t t' : TokenTable} {new row : TokenRow} (h : Known t row)
    (hinsert : t.insert? new = some t') : Known t' row := by
  obtain ⟨r, hr, hspec⟩ := h
  exact ⟨r, (mem_insert hinsert).mpr (Or.inl hr), hspec⟩

theorem known_inserted {t t' : TokenTable} {new : TokenRow} (h : t.insert? new = some t') :
    Known t' new := by
  exact Known.of_mem ((mem_insert h).mpr (Or.inr rfl))

theorem grows_login {db : Db} {user : User} {newHash : Option String} {new : TokenRow}
    {tokens : TokenTable} (h : db.tokens.insert? new = some tokens) :
    Grows db { db.rehash user.id newHash with tokens := tokens } (some new) where
  active := fun userId => rehash_active user.id userId newHash
  known := fun row hrow => hrow.insert h
  old := by
    intro r hr
    rcases (mem_insert h).mp hr with hold | hnew
    · exact Or.inl ⟨r, hold, rfl, rfl, rfl, rfl⟩
    · obtain rfl : r = new := hnew
      exact Or.inr ⟨r, rfl, rfl, rfl, rfl⟩
  added := by
    rintro row ⟨⟩
    exact known_inserted h

theorem grows_exchange {db : Db} {at_ : Time} {rowId : Id} {new : TokenRow} {tokens : TokenTable}
    (h : db.tokens.insert? new = some tokens) :
    Grows db { db with tokens := tokens.replace rowId at_ new.id } (some new) where
  active := fun _ => rfl
  known := fun row hrow => (hrow.insert h).update
  old := by
    intro r hr
    have hback : ∃ r₀ ∈ tokens.rows, r₀.id = r.id ∧ r₀.familyId = r.familyId ∧
        r₀.userId = r.userId ∧ r₀.tokenHash = r.tokenHash := by
      obtain ⟨r₀, hr₀, rfl⟩ := mem_update.mp hr
      exact ⟨r₀, hr₀, rfl, rfl, rfl, rfl⟩
    obtain ⟨r₀, hr₀, hid, hfamily, huser, hhash⟩ := hback
    rcases (mem_insert h).mp hr₀ with hold | hnew
    · exact Or.inl ⟨r₀, hold, hid, hfamily, huser, hhash⟩
    · obtain rfl : r₀ = new := hnew
      exact Or.inr ⟨r₀, rfl, hid, hfamily, hhash⟩
  added := by
    rintro row ⟨⟩
    exact (known_inserted h).update

theorem grows_revoke {db : Db} {ids : List Id} {at_ : Time} :
    Grows db { db with tokens := db.tokens.revoke ids at_ } none where
  active := fun _ => rfl
  known := fun row hrow => hrow.update
  old := by
    intro r hr
    obtain ⟨r₀, hr₀, rfl⟩ := mem_update.mp hr
    exact Or.inl ⟨r₀, hr₀, rfl, rfl, rfl, rfl⟩
  added := fun _ h => nomatch h

/-- A family in use stays in use. -/
theorem Grows.used {db db' : Db} {new : Option TokenRow} (h : Grows db db' new) {familyId : Id}
    (hused : Used db.tokens familyId) : Used db'.tokens familyId := by
  obtain ⟨r, hr, rfl⟩ := hused
  obtain ⟨r', hr', -, hfamily, -⟩ := h.known r (Known.of_mem hr)
  exact ⟨r', hr', hfamily⟩

/-- What a call knows stays known. -/
theorem Grows.local {db db' : Db} {new : Option TokenRow} (h : Grows db db' new) {serial : Nat}
    {pc : Pc} (hl : Local db serial pc) : Local db' serial pc := by
  cases pc with
  | refreshUser now row userAgent => exact h.known _ hl
  | refreshInsert now row user userAgent =>
    exact ⟨h.known _ hl.1, by rw [h.active]; exact hl.2⟩
  | refreshUpdate now row user new =>
    exact ⟨h.known _ hl.1, by rw [h.active]; exact hl.2.1, hl.2.2⟩
  | refreshCommit now row user new =>
    exact ⟨h.known _ hl.1, by rw [h.active]; exact hl.2.1, hl.2.2⟩
  | revoking now familyId answer => exact h.used hl
  | revokeCommit now familyId ids answer => exact h.used hl
  | done answer committed =>
    cases committed with
    | revoked familyId => exact h.used hl
    | _ => exact trivial
  | _ => exact hl

/-! ## 3. The step -/

variable {cfg : Config} {db db' : Db} {serial : Nat} {pc pc' : Pc} {c : Choice}

/-- A new row that fits: it bears its call's number, and it opens a family of that number or
joins one that is there. -/
structure Fits (db : Db) (serial : Nat) (pc' : Pc) (row : TokenRow) : Prop where
  id : row.id = serial
  tokenHash : row.tokenHash = .sha256 serial
  family : row.familyId = serial ∨ ∃ r ∈ db.tokens.rows, r.familyId = row.familyId
  done : pc'.isDone = true

/-- **What a statement does to the tables.** -/
theorem effect_grows (hl : Local db serial pc) (h : Effect cfg db serial pc c db' pc') :
    ∃ new, Grows db db' new ∧ ∀ row ∈ new, Fits db serial pc' row := by
  cases h with
  | login h =>
    have hnew : Issued serial serial _ := hl
    refine ⟨some _, grows_login h, ?_⟩
    rintro row ⟨⟩
    exact ⟨hnew.id, hnew.tokenHash, Or.inl hnew.familyId, rfl⟩
  | exchange h =>
    obtain ⟨⟨r, hr, -, hfamily, -⟩, -, hnew⟩ := hl
    refine ⟨some _, grows_exchange h, ?_⟩
    rintro row ⟨⟩
    exact ⟨hnew.id, hnew.tokenHash, Or.inr ⟨r, hr, hfamily.trans hnew.familyId.symm⟩, rfl⟩
  | revoke => exact ⟨none, grows_revoke, fun _ h => nomatch h⟩
  | read _ => exact ⟨none, Grows.refl db, fun _ h => nomatch h⟩
  | collect => exact ⟨none, Grows.refl db, fun _ h => nomatch h⟩
  | move _ _ _ => exact ⟨none, Grows.refl db, fun _ h => nomatch h⟩

theorem newRow_issued (now : Time) (userId familyId : Id) (userAgent : Option String) :
    Issued serial familyId (newRow cfg serial userId familyId now userAgent) :=
  ⟨rfl, rfl, rfl, rfl⟩

theorem local_checkRow {row : TokenRow} {now : Time} (userAgent : Option String)
    (hrow : row ∈ db.tokens.rows) : Local db serial (checkRow row now userAgent) := by
  unfold checkRow
  split
  · exact trivial
  · split
    · exact Known.of_mem hrow
    · split
      · exact trivial
      · exact ⟨row, hrow, rfl⟩

theorem local_checkUser {row : TokenRow} {at_ : Time} (userAgent : Option String)
    (hrow : Known db.tokens row) : Local db serial (checkUser db at_ row userAgent) := by
  unfold checkUser
  split
  · exact trivial
  · rename_i user huser
    split
    · rename_i hactive
      refine ⟨hrow, ?_⟩
      simp [Db.active, huser, hactive]
    · exact trivial

theorem local_checkLogin (email password : String) (userAgent : Option String) :
    Local db serial (checkLogin cfg db email password userAgent) := by
  unfold checkLogin
  split
  · exact trivial
  · split
    · exact trivial
    · split <;> exact trivial

/-- What a call knows after a statement. -/
theorem local_step (hl : Local db serial pc) (h : stepPc cfg db serial pc c = some (db', pc')) :
    Local db' serial pc' := by
  cases c with
  | abort =>
    cases pc with
    | done answer committed => exact nomatch h
    | _ =>
      obtain ⟨rfl, rfl⟩ := Prod.mk.inj (Option.some.inj h)
      exact trivial
  | go now =>
    cases pc with
    | loginStart email password userAgent =>
      obtain ⟨rfl, rfl⟩ := Prod.mk.inj (Option.some.inj h)
      exact local_checkLogin email password userAgent
    | loginInsert user newHash userAgent =>
      obtain ⟨rfl, rfl⟩ := Prod.mk.inj (Option.some.inj h)
      exact newRow_issued now user.id serial userAgent
    | loginCommit user newHash new =>
      obtain h := Option.some.inj h
      split at h <;> obtain ⟨rfl, rfl⟩ := Prod.mk.inj h <;> exact trivial
    | refreshStart token userAgent =>
      obtain h := Option.some.inj h
      split at h
      · obtain ⟨rfl, rfl⟩ := Prod.mk.inj h
        exact trivial
      · rename_i row hrow
        obtain ⟨rfl, rfl⟩ := Prod.mk.inj h
        exact local_checkRow userAgent (mem_of_getByHash hrow).1
    | refreshUser at_ row userAgent =>
      obtain ⟨rfl, rfl⟩ := Prod.mk.inj (Option.some.inj h)
      exact local_checkUser userAgent hl
    | refreshInsert at_ row user userAgent =>
      obtain ⟨rfl, rfl⟩ := Prod.mk.inj (Option.some.inj h)
      exact ⟨hl.1, hl.2, newRow_issued at_ user.id row.familyId userAgent⟩
    | refreshUpdate at_ row user new =>
      obtain ⟨rfl, rfl⟩ := Prod.mk.inj (Option.some.inj h)
      exact hl
    | refreshCommit at_ row user new =>
      obtain h := Option.some.inj h
      split at h <;> obtain ⟨rfl, rfl⟩ := Prod.mk.inj h <;> exact trivial
    | logoutStart token =>
      obtain h := Option.some.inj h
      split at h
      · obtain ⟨rfl, rfl⟩ := Prod.mk.inj h
        exact trivial
      · rename_i row hrow
        obtain ⟨rfl, rfl⟩ := Prod.mk.inj h
        obtain ⟨t, -, hfound⟩ := Option.bind_eq_some_iff.mp hrow
        exact ⟨row, (mem_of_getByHash hfound).1, rfl⟩
    | logoutCommit =>
      obtain ⟨rfl, rfl⟩ := Prod.mk.inj (Option.some.inj h)
      exact trivial
    | revoking at_ familyId answer =>
      obtain ⟨rfl, rfl⟩ := Prod.mk.inj (Option.some.inj h)
      exact hl
    | revokeCommit at_ familyId ids answer =>
      obtain ⟨rfl, rfl⟩ := Prod.mk.inj (Option.some.inj h)
      exact grows_revoke.used hl
    | done answer committed => exact nomatch h

/-- A call that takes a step is not done. -/
theorem step_not_done (h : stepPc cfg db serial pc c = some (db', pc')) : pc.isDone = false := by
  cases pc with
  | done answer committed => cases c <;> exact nomatch h
  | _ => rfl

/-- **Every step keeps the invariant**, whatever else is in progress. -/
theorem base_step {s s' : Sys} {l : Label} (hs : Base s) (h : s.step cfg l = some s') :
    Base s' := by
  cases step_cases h with
  | call request =>
    refine ⟨?_, ?_, hs.tokenHash, hs.root, ?_⟩
    · intro i c hc
      rcases concat_cases hc with ⟨hi, rfl⟩ | hold
      · exact hi.symm
      · exact hs.serial i c hold
    · intro r hr
      obtain ⟨c, hc, hdone⟩ := hs.writer r hr
      obtain ⟨hlt, -⟩ := List.getElem?_eq_some_iff.mp hc
      exact ⟨c, by rw [Par.spawn_parties, List.getElem?_append_left hlt]; exact hc, hdone⟩
    · intro i c hc
      rcases concat_cases hc with ⟨-, rfl⟩ | hold
      · cases request <;> exact trivial
      · exact hs.knows i c hold
  | @act i choice c db pc hc hstep =>
    have hdone : c.pc.isDone = false := step_not_done hstep
    obtain ⟨new, hgrows, hfits⟩ := effect_grows (hs.knows i c hc) (stepPc_effect hstep)
    have hserial : c.serial = i := hs.serial i c hc
    refine ⟨?_, ?_, ?_, ?_, ?_⟩
    · intro j d hd
      rcases set_cases hd with ⟨rfl, rfl⟩ | ⟨-, hold⟩
      · exact hserial
      · exact hs.serial j d hold
    · intro r' hr'
      rcases hgrows.old r' hr' with ⟨r, hr, hid, -⟩ | ⟨row, hrow, hid, -⟩
      · obtain ⟨d, hd, hd'⟩ := hs.writer r hr
        have hne : r'.id ≠ i := by
          rw [← hid]
          exact hs.fresh hc hdone r hr
        exact ⟨d, by rw [set_other hne, ← hid]; exact hd, hd'⟩
      · have hi : r'.id = i := by rw [← hid, (hfits row hrow).id, hserial]
        exact ⟨_, by rw [hi]; exact set_self hc, (hfits row hrow).done⟩
    · intro r' hr'
      rcases hgrows.old r' hr' with ⟨r, hr, hid, -, -, hhash⟩ | ⟨row, hrow, hid, -, hhash⟩
      · rw [← hhash, ← hid]
        exact hs.tokenHash r hr
      · rw [← hhash, ← hid, (hfits row hrow).id, (hfits row hrow).tokenHash]
    · intro r' hr'
      -- the first row of the family is kept, or it is the new row itself
      have hkept : ∀ r ∈ s.shared.tokens.rows, r.familyId = r'.familyId →
          ∃ r₀ ∈ db.tokens.rows, r₀.id = r'.familyId := by
        intro r hr hfamily
        obtain ⟨r₀, hr₀, hroot⟩ := hs.root r hr
        obtain ⟨r₁, hr₁, hid, -⟩ := hgrows.known r₀ (Known.of_mem hr₀)
        exact ⟨r₁, hr₁, by rw [hid, hroot, hfamily]⟩
      rcases hgrows.old r' hr' with ⟨r, hr, -, hfamily, -⟩ | ⟨row, hrow, hid, hfamily, -⟩
      · exact hkept r hr hfamily
      · rcases (hfits row hrow).family with hopens | ⟨r, hr, hjoins⟩
        · exact ⟨r', hr', by rw [← hid, ← hfamily, hopens, (hfits row hrow).id]⟩
        · exact hkept r hr (hjoins.trans hfamily)
    · intro j d hd
      rcases set_cases hd with ⟨-, rfl⟩ | ⟨-, hold⟩
      · exact local_step (hs.knows i c hc) hstep
      · exact hgrows.local (hs.knows j d hold)

/-- The invariant along a run. -/
theorem base_run {s s' : Sys} {ls : List Label} (hs : Base s)
    (h : run (Sys.step cfg) s ls = some s') : Base s' :=
  run_invariant_of_step (fun _ _ _ hb hstep => base_step hb hstep) hs h

/-! ## 4. A refresh goes on to its commit -/

/-- From `s` to `s'`, only the call at `i` has moved, and it has exchanged the row for one that
is live in the same family. -/
structure Exchanges (s s' : Sys) (i : Nat) (row : TokenRow) : Prop where
  others : ∀ j, j ≠ i → s'.parties[j]? = s.parties[j]?
  committed : ∃ c, s'.parties[i]? = some c ∧ ∃ newId, c.pc.committed = .exchanged row.id newId
  active : ∀ userId, s'.shared.active userId = s.shared.active userId
  live : ∃ r ∈ s'.shared.tokens.rows, r.familyId = row.familyId ∧ r.revokedAt = none

/-- The last statement: the commit. -/
theorem commit_exchanges (cfg : Config) {s : Sys} (hs : Base s) {i : Nat} {call : Call} {at_ : Time}
    {row new : TokenRow} {user : User} (hc : s.parties[i]? = some call)
    (hpc : call.pc = .refreshCommit at_ row user new) :
    ∃ s', s.step cfg (.act i (.go at_)) = some s' ∧ Exchanges s s' i row := by
  obtain ⟨serial, pc⟩ := call
  obtain rfl : pc = .refreshCommit at_ row user new := hpc
  obtain rfl : serial = i := hs.serial i _ hc
  obtain ⟨hknown, hactive, hnew⟩ := hs.knows _ _ hc
  have hfresh := hs.fresh hc rfl
  obtain ⟨tokens, htokens⟩ : ∃ tokens, s.shared.tokens.insert? new = some tokens := by
    refine insert_isSome ?_ ?_
    · intro r hr heq
      exact hfresh r hr (heq.trans hnew.id)
    · intro r hr heq
      rw [hs.tokenHash r hr, hnew.tokenHash] at heq
      exact hfresh r hr (TokenHash.sha256.inj heq)
  have hstep : stepPc cfg s.shared serial (.refreshCommit at_ row user new) (.go at_)
      = some ({ s.shared with tokens := tokens.replace row.id at_ new.id },
        .done (.issued (issued cfg serial user)) (.exchanged row.id new.id)) := by
    simp only [stepPc, goPc, htokens]
  refine ⟨_, step_act hc hstep, ?_, ?_, fun _ => rfl, ?_⟩
  · intro j hj
    exact set_other hj
  · exact ⟨_, set_self hc, new.id, rfl⟩
  · -- the new row is another one than the one it replaces
    have hne : new.id ≠ row.id := by
      obtain ⟨r, hr, hid, -⟩ := hknown
      intro heq
      exact hfresh r hr (by rw [hid, ← heq, hnew.id])
    have hmem : new ∈ tokens.rows := (mem_insert htokens).mpr (Or.inr rfl)
    refine ⟨new, mem_update.mpr ⟨new, hmem, ?_⟩, hnew.familyId, hnew.live⟩
    simp [hne]

/-- A run of the call at `i` alone that ends in the exchange. -/
def CanExchange (cfg : Config) (s : Sys) (i : Nat) (row : TokenRow) : Prop :=
  ∃ ls s', run (Sys.step cfg) s ls = some s' ∧ Exchanges s s' i row

/-- A statement of the call that leaves the tables alone can come first. -/
theorem CanExchange.cons {s : Sys} {i : Nat} {call : Call} {choice : Choice} {row : TokenRow}
    (hc : s.parties[i]? = some call)
    (hstep : stepPc cfg s.shared call.serial call.pc choice = some (s.shared, pc))
    (h : CanExchange cfg ⟨s.shared, s.parties.set i { call with pc := pc }⟩ i row) :
    CanExchange cfg s i row := by
  obtain ⟨ls, s', hrun, hex⟩ := h
  refine ⟨.act i choice :: ls, s', ?_, ?_, hex.committed, hex.active, hex.live⟩
  · rw [run_cons, step_act hc hstep]
    exact hrun
  · intro j hj
    rw [hex.others j hj]
    exact set_other hj

theorem refreshCommit_canExchange {s : Sys} (hs : Base s) {i : Nat} {call : Call} {at_ : Time}
    {row new : TokenRow} {user : User} (hc : s.parties[i]? = some call)
    (hpc : call.pc = .refreshCommit at_ row user new) : CanExchange cfg s i row := by
  obtain ⟨s', hstep, hex⟩ := commit_exchanges cfg hs hc hpc
  exact ⟨[.act i (.go at_)], s', by simp [hstep], hex⟩

theorem refreshUpdate_canExchange {s : Sys} (hs : Base s) {i : Nat} {call : Call} {at_ : Time}
    {row new : TokenRow} {user : User} (hc : s.parties[i]? = some call)
    (hpc : call.pc = .refreshUpdate at_ row user new) : CanExchange cfg s i row := by
  have hstep : stepPc cfg s.shared call.serial call.pc (.go at_)
      = some (s.shared, .refreshCommit at_ row user new) := by rw [hpc]; rfl
  have hs' := base_step hs (step_act hc hstep)
  exact CanExchange.cons hc hstep (refreshCommit_canExchange hs' (set_self hc) rfl)

theorem refreshInsert_canExchange {s : Sys} (hs : Base s) {i : Nat} {call : Call} {at_ : Time}
    {row : TokenRow} {user : User} {userAgent : Option String} (hc : s.parties[i]? = some call)
    (hpc : call.pc = .refreshInsert at_ row user userAgent) : CanExchange cfg s i row := by
  have hstep : stepPc cfg s.shared call.serial call.pc (.go at_) = some (s.shared,
      .refreshUpdate at_ row user
        (newRow cfg call.serial user.id row.familyId at_ userAgent)) := by rw [hpc]; rfl
  have hs' := base_step hs (step_act hc hstep)
  exact CanExchange.cons hc hstep (refreshUpdate_canExchange hs' (set_self hc) rfl)

theorem refreshUser_canExchange {s : Sys} (hs : Base s) {i : Nat} {call : Call} {at_ : Time}
    {row : TokenRow} {userAgent : Option String} (hc : s.parties[i]? = some call)
    (hpc : call.pc = .refreshUser at_ row userAgent)
    (hactive : s.shared.active row.userId = true) : CanExchange cfg s i row := by
  obtain ⟨user, huser, hisActive⟩ : ∃ user, s.shared.getById row.userId = some user ∧
      user.isActive = true := by
    simpa [Db.active, Option.any_eq_true] using hactive
  have hstep : stepPc cfg s.shared call.serial call.pc (.go at_)
      = some (s.shared, .refreshInsert at_ row user userAgent) := by
    rw [hpc]
    simp [stepPc, goPc, checkUser, huser, hisActive]
  have hs' := base_step hs (step_act hc hstep)
  exact CanExchange.cons hc hstep (refreshInsert_canExchange hs' (set_self hc) rfl)

/-- **Nothing stops a refresh that has read its row.**  If its user is active, the call can go on
to its commit alone, whatever has happened to the row since. -/
theorem holder_commits {s : Sys} (hs : Base s) {i : Nat} {call : Call} {row : TokenRow}
    (hc : s.parties[i]? = some call) (hheld : call.pc.held = some row)
    (hactive : s.shared.active row.userId = true) : CanExchange cfg s i row := by
  cases hpc : call.pc with
  | refreshUser at_ row' userAgent =>
    rw [hpc] at hheld
    obtain rfl := Option.some.inj hheld
    exact refreshUser_canExchange hs hc hpc hactive
  | refreshInsert at_ row' user userAgent =>
    rw [hpc] at hheld
    obtain rfl := Option.some.inj hheld
    exact refreshInsert_canExchange hs hc hpc
  | refreshUpdate at_ row' user new =>
    rw [hpc] at hheld
    obtain rfl := Option.some.inj hheld
    exact refreshUpdate_canExchange hs hc hpc
  | refreshCommit at_ row' user new =>
    rw [hpc] at hheld
    obtain rfl := Option.some.inj hheld
    exact refreshCommit_canExchange hs hc hpc
  | _ =>
    rw [hpc] at hheld
    exact nomatch hheld

/-- A row that a call holds is known. -/
theorem Base.known_of_held {s : Sys} (hs : Base s) {i : Nat} {call : Call} {row : TokenRow}
    (hc : s.parties[i]? = some call) (hheld : call.pc.held = some row) :
    Known s.shared.tokens row := by
  have hl := hs.knows i call hc
  cases hpc : call.pc with
  | refreshUser at_ row' userAgent =>
    rw [hpc] at hheld hl
    obtain rfl := Option.some.inj hheld
    exact hl
  | refreshInsert at_ row' user userAgent =>
    rw [hpc] at hheld hl
    obtain rfl := Option.some.inj hheld
    exact hl.1
  | refreshUpdate at_ row' user new =>
    rw [hpc] at hheld hl
    obtain rfl := Option.some.inj hheld
    exact hl.1
  | refreshCommit at_ row' user new =>
    rw [hpc] at hheld hl
    obtain rfl := Option.some.inj hheld
    exact hl.1
  | _ =>
    rw [hpc] at hheld
    exact nomatch hheld

/-! ## 5. Who holds a row -/

/-- The call at `i` is a refresh of an active user that holds the row. -/
structure Holds (s : Sys) (i : Nat) (row : TokenRow) : Prop where
  call : ∃ c, s.parties[i]? = some c ∧ c.pc.held = some row
  active : s.shared.active row.userId = true

/-- A row that `reads` returns is a live row of the table. -/
theorem reads_spec {db : Db} {pc : Pc} {now : Time} {row : TokenRow}
    (h : pc.reads db now = some row) :
    row ∈ db.tokens.rows ∧ row.revokedAt = none ∧ pc.held = none := by
  cases pc with
  | refreshStart token userAgent =>
    obtain ⟨hrow, hcond⟩ := Option.filter_eq_some_iff.mp h
    have hparts : ¬ row.expiresAt < now ∧ row.revokedAt = none := by simpa using hcond
    exact ⟨(mem_of_getByHash hrow).1, hparts.2, rfl⟩
  | _ => exact nomatch h

/-- The read of a live row goes through. -/
theorem reads_step (cfg : Config) {db : Db} (serial : Nat) {pc : Pc} {now : Time} {row : TokenRow}
    (h : pc.reads db now = some row) :
    ∃ userAgent, stepPc cfg db serial pc (.go now) = some (db, .refreshUser now row userAgent) := by
  cases pc with
  | refreshStart token userAgent =>
    obtain ⟨hrow, hcond⟩ := Option.filter_eq_some_iff.mp h
    have hparts : ¬ row.expiresAt < now ∧ row.revokedAt = none := by simpa using hcond
    refine ⟨userAgent, ?_⟩
    simp only [stepPc, goPc, hrow, checkRow, hparts.1, hparts.2, if_false]
  | _ => exact nomatch h

/-- A step of the call at `i`: who holds a row afterwards held it before, or is the call itself
with what it holds now. -/
theorem holds_set {s : Sys} {db : Db} {i j : Nat} {c : Call} {pc : Pc} {row : TokenRow}
    (hactive : ∀ userId, db.active userId = s.shared.active userId)
    (h : Holds ⟨db, s.parties.set i { c with pc := pc }⟩ j row) :
    (j ≠ i ∧ Holds s j row) ∨
      (j = i ∧ pc.held = some row ∧ s.shared.active row.userId = true) := by
  obtain ⟨⟨d, hd, hheld⟩, hact⟩ := h
  have hact' : s.shared.active row.userId = true := by
    rw [← hactive]
    exact hact
  rcases set_cases hd with ⟨rfl, rfl⟩ | ⟨hne, hold⟩
  · exact Or.inr ⟨rfl, hheld, hact'⟩
  · exact Or.inl ⟨hne, ⟨d, hold, hheld⟩, hact'⟩

/-- Who holds a row after a commit held it before; the committing call holds none. -/
theorem holds_commit {s : Sys} {db : Db} {i j : Nat} {c : Call} {answer : Answer}
    {committed : Committed} {row : TokenRow}
    (hactive : ∀ userId, db.active userId = s.shared.active userId)
    (h : Holds ⟨db, s.parties.set i { c with pc := .done answer committed }⟩ j row) :
    j ≠ i ∧ Holds s j row := by
  rcases holds_set hactive h with hold | ⟨-, hpc, -⟩
  · exact hold
  · exact nomatch hpc

end AtlasKnowledge.Auth
