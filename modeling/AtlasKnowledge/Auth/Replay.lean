/-
# Replaying a refresh token

What a history of calls one after the other keeps of `refresh_tokens`: a revoked row never changes
again, a family without a live row never gets one, and a row that was revoked without being
replaced is of such a family.  So the row of a token that was exchanged still bears the time of the
exchange when the token is presented again, and that time decides.

* `refresh_replay`: the second refresh fails, and more than `rotationGrace` after the exchange it
  leaves the family dead for good; all other failing refreshes change nothing, and a call changes
  the rows of one family at most.
-/
import AtlasKnowledge.Auth.Atomic

namespace AtlasKnowledge.Auth

open Transition

/-! ## 1. The property -/

/-- No token of the family is live. -/
def Dead (t : TokenTable) (familyId : Id) : Prop :=
  ∀ r ∈ t.rows, r.familyId = familyId → r.revokedAt ≠ none

/-- From `s` on, the family is dead, and no refresh of one of its tokens succeeds. -/
def DeadForGood (cfg : Config) (s : Server) (familyId : Id) : Prop :=
  ∀ ls s', run (Server.step cfg) s ls = some s' → Dead s'.db.tokens familyId ∧
    ∀ token userAgent now s'' row, s'.db.getByHash (.sha256 token) = some row →
      row.familyId = familyId → s'.step cfg (.call (.refresh token userAgent) now) = some s'' →
      s''.answer? = some .invalidRefreshToken

/-- What the replay at `now` of a token exchanged at `at_` does. -/
structure Replayed (cfg : Config) (s s' : Server) (familyId : Id) (at_ now : Time) : Prop where
  answer : s'.answer? = some .invalidRefreshToken
  stolen : rotationGrace < now - at_ → DeadForGood cfg s' familyId
  raced : now - at_ ≤ rotationGrace → s'.db.tokens = s.db.tokens

/-- The token was exchanged, and its row is past the grace period without having expired. -/
def LateReplay (db : Db) (token : Token) (now : Time) : Prop :=
  ∃ row at_, db.getByHash (.sha256 token) = some row ∧ ¬ row.expiresAt < now ∧
    row.revokedAt = some at_ ∧ row.replacedBy.isSome = true ∧ rotationGrace < now - at_

/-! ## 2. The invariant -/

/-- The rows are those of the first `n` calls, and what was revoked without being replaced is of a
dead family. -/
structure Sound (t : TokenTable) (n : Nat) : Prop where
  id : ∀ r ∈ t.rows, r.id < n
  tokenHash : ∀ r ∈ t.rows, r.tokenHash = .sha256 r.id
  family : ∀ r ∈ t.rows, r.familyId < n
  dead : ∀ r ∈ t.rows, r.revokedAt ≠ none → r.replacedBy = none → Dead t r.familyId

/-- What a call keeps. -/
structure Keeps (t t' : TokenTable) (n : Nat) : Prop where
  revoked : ∀ r ∈ t.rows, r.revokedAt ≠ none → r ∈ t'.rows
  dead : ∀ familyId < n, Dead t familyId → Dead t' familyId

/-- The rows of the other families are what they were. -/
def Frame (t t' : TokenTable) (family : Option Id) : Prop :=
  ∀ r, family ≠ some r.familyId → (r ∈ t'.rows ↔ r ∈ t.rows)

variable {cfg : Config} {db db' : Db} {serial : Nat} {now : Time} {t t' : TokenTable}
  {row new r : TokenRow} {familyId : Id}

theorem Keeps.refl (t : TokenTable) (n : Nat) : Keeps t t n := ⟨fun _ h _ => h, fun _ _ h => h⟩

/-- The rows after an exchange. -/
theorem mem_exchange {newId : Id} (hinsert : t.insert? new = some t') (hne : new.id ≠ row.id)
    (hmem : row ∈ t.rows) :
    r ∈ (t'.replace row.id now newId).rows ↔
      (r ∈ t.rows ∧ r.id ≠ row.id) ∨ r = new ∨
        r = { row with revokedAt := some now, replacedBy := some newId } := by
  have hsame : ∀ r₀ : TokenRow, r₀.id ≠ row.id →
      { r₀ with
        revokedAt := (if r₀.id = row.id then (some now, some newId)
          else (r₀.revokedAt, r₀.replacedBy)).1,
        replacedBy := (if r₀.id = row.id then (some now, some newId)
          else (r₀.revokedAt, r₀.replacedBy)).2 } = r₀ := by
    intro r₀ h
    simp [h]
  constructor
  · intro hr
    obtain ⟨r₀, hr₀, rfl⟩ := mem_update.mp hr
    by_cases hid : r₀.id = row.id
    · rcases (mem_insert hinsert).mp hr₀ with hold | rfl
      · obtain rfl := eq_of_row_id hold hmem hid
        exact .inr (.inr (by simp))
      · exact absurd hid hne
    · rw [hsame r₀ hid]
      rcases (mem_insert hinsert).mp hr₀ with hold | hnew
      · exact .inl ⟨hold, hid⟩
      · exact .inr (.inl hnew)
  · rintro (⟨hr, hid⟩ | rfl | rfl)
    · exact mem_update.mpr ⟨r, (mem_insert hinsert).mpr (.inl hr), hsame r hid⟩
    · exact mem_update.mpr ⟨r, (mem_insert hinsert).mpr (.inr rfl), hsame r hne⟩
    · exact mem_update.mpr ⟨row, (mem_insert hinsert).mpr (.inl hmem), by simp⟩

/-- The rows after `revoke_family`, with nothing in between. -/
theorem mem_revoke_family :
    r ∈ (db.tokens.revoke (db.liveIds familyId) now).rows ↔
      (r ∈ db.tokens.rows ∧ ¬ (r.familyId = familyId ∧ r.revokedAt = none)) ∨
        ∃ r₀ ∈ db.tokens.rows, r₀.familyId = familyId ∧ r₀.revokedAt = none ∧
          r = { r₀ with revokedAt := some now } := by
  have hlive : ∀ r₀ ∈ db.tokens.rows, r₀.id ∈ db.liveIds familyId ∧ r₀.revokedAt = none ↔
      r₀.familyId = familyId ∧ r₀.revokedAt = none := by
    intro r₀ hr₀
    rw [mem_liveIds]
    constructor
    · rintro ⟨⟨r₁, hr₁, hfamily, -, hid⟩, hnone⟩
      obtain rfl := eq_of_row_id hr₁ hr₀ hid
      exact ⟨hfamily, hnone⟩
    · rintro ⟨hfamily, hnone⟩
      exact ⟨⟨r₀, hr₀, hfamily, hnone, rfl⟩, hnone⟩
  constructor
  · intro hr
    obtain ⟨r₀, hr₀, rfl⟩ := mem_update.mp hr
    by_cases hcond : r₀.familyId = familyId ∧ r₀.revokedAt = none
    · simp only [(hlive r₀ hr₀).mpr hcond, and_self, if_true]
      exact .inr ⟨r₀, hr₀, hcond.1, hcond.2, rfl⟩
    · have hnot : ¬ (r₀.id ∈ db.liveIds familyId ∧ r₀.revokedAt = none) :=
        fun h => hcond ((hlive r₀ hr₀).mp h)
      simp only [hnot, if_false]
      exact .inl ⟨hr₀, hcond⟩
  · rintro (⟨hr, hcond⟩ | ⟨r₀, hr₀, hfamily, hnone, rfl⟩)
    · have hnot : ¬ (r.id ∈ db.liveIds familyId ∧ r.revokedAt = none) :=
        fun h => hcond ((hlive r hr).mp h)
      refine mem_update.mpr ⟨r, hr, ?_⟩
      simp only [hnot, if_false]
    · refine mem_update.mpr ⟨r₀, hr₀, ?_⟩
      simp only [(hlive r₀ hr₀).mpr ⟨hfamily, hnone⟩, and_self, if_true]

/-- After `revoke_family` the family is dead. -/
theorem revoke_family_dead (db : Db) (familyId : Id) (now : Time) :
    Dead (db.tokens.revoke (db.liveIds familyId) now) familyId := by
  intro r hr hfamily hnone
  rcases mem_revoke_family.mp hr with ⟨-, hcond⟩ | ⟨r₀, -, -, -, rfl⟩
  · exact hcond ⟨hfamily, hnone⟩
  · exact nomatch hnone

/-- Revoking a dead family changes nothing. -/
theorem revoke_dead (h : Dead db.tokens familyId) :
    db.tokens.revoke (db.liveIds familyId) now = db.tokens := by
  have hids : db.liveIds familyId = [] := by
    rw [List.eq_nil_iff_forall_not_mem]
    intro id hid
    obtain ⟨r, hr, hfamily, hnone, -⟩ := mem_liveIds.mp hid
    exact h r hr hfamily hnone
  rw [hids]
  unfold TokenTable.revoke TokenTable.update
  simp

/-! ## 3. One call -/

theorem keep_sound (hs : Sound t serial) : Sound t (serial + 1) :=
  ⟨fun r hr => Nat.lt_succ_of_lt (hs.id r hr), hs.tokenHash,
    fun r hr => Nat.lt_succ_of_lt (hs.family r hr), hs.dead⟩

/-- A login opens a family that was not there. -/
theorem opens_sound (hs : Sound t serial) (hinsert : t.insert? new = some t')
    (hid : new.id = serial) (hhash : new.tokenHash = .sha256 serial)
    (hjoins : new.familyId = serial)
    (hlive : new.revokedAt = none) :
    Sound t' (serial + 1) ∧ Keeps t t' serial ∧ Frame t t' (some serial) := by
  have hdead : ∀ familyId < serial, Dead t familyId → Dead t' familyId := by
    intro familyId hlt hdead r hr hfamily
    rcases (mem_insert hinsert).mp hr with hold | rfl
    · exact hdead r hold hfamily
    · exact absurd (hfamily.symm.trans hjoins) (Nat.ne_of_lt hlt)
  refine ⟨⟨?_, ?_, ?_, ?_⟩, ⟨fun r hr _ => (mem_insert hinsert).mpr (.inl hr), hdead⟩, ?_⟩
  · intro r hr
    rcases (mem_insert hinsert).mp hr with hold | rfl
    · exact Nat.lt_succ_of_lt (hs.id r hold)
    · exact hid ▸ Nat.lt_succ_self _
  · intro r hr
    rcases (mem_insert hinsert).mp hr with hold | rfl
    · exact hs.tokenHash r hold
    · rw [hhash, hid]
  · intro r hr
    rcases (mem_insert hinsert).mp hr with hold | rfl
    · exact Nat.lt_succ_of_lt (hs.family r hold)
    · exact hjoins ▸ Nat.lt_succ_self _
  · intro r hr hrevoked hreplaced
    rcases (mem_insert hinsert).mp hr with hold | rfl
    · exact hdead _ (hs.family r hold) (hs.dead r hold hrevoked hreplaced)
    · exact absurd hlive hrevoked
  · intro r hne
    rw [mem_insert hinsert]
    refine or_iff_left ?_
    rintro rfl
    exact hne (congrArg some hjoins.symm)

/-- An exchange: the live row it replaces says that its family is not dead. -/
theorem exchanges_sound (hs : Sound t serial) (hmem : row ∈ t.rows) (hwas : row.revokedAt = none)
    (hinsert : t.insert? new = some t') (hid : new.id = serial)
    (hhash : new.tokenHash = .sha256 serial) (hjoins : new.familyId = row.familyId)
    (hlive : new.revokedAt = none) :
    Sound (t'.replace row.id now serial) (serial + 1) ∧
      Keeps t (t'.replace row.id now serial) serial ∧
      Frame t (t'.replace row.id now serial) (some row.familyId) := by
  have hne : new.id ≠ row.id := hid ▸ Nat.ne_of_gt (hs.id row hmem)
  have hmem' : ∀ r, r ∈ (t'.replace row.id now serial).rows ↔ (r ∈ t.rows ∧ r.id ≠ row.id) ∨
      r = new ∨ r = { row with revokedAt := some now, replacedBy := some serial } :=
    fun r => mem_exchange hinsert hne hmem
  have halive : ∀ {familyId : Id}, Dead t familyId → row.familyId ≠ familyId :=
    fun hdead heq => hdead row hmem heq hwas
  have hdead : ∀ familyId, Dead t familyId → Dead (t'.replace row.id now serial) familyId := by
    intro familyId hdead r hr hfamily
    rcases (hmem' r).mp hr with ⟨hold, -⟩ | rfl | rfl
    · exact hdead r hold hfamily
    · exact absurd (hjoins.symm.trans hfamily) (halive hdead)
    · exact absurd hfamily (halive hdead)
  refine ⟨⟨?_, ?_, ?_, ?_⟩, ⟨?_, fun familyId _ => hdead familyId⟩, ?_⟩
  · intro r hr
    rcases (hmem' r).mp hr with ⟨hold, -⟩ | rfl | rfl
    · exact Nat.lt_succ_of_lt (hs.id r hold)
    · exact hid ▸ Nat.lt_succ_self _
    · exact Nat.lt_succ_of_lt (hs.id row hmem)
  · intro r hr
    rcases (hmem' r).mp hr with ⟨hold, -⟩ | rfl | rfl
    · exact hs.tokenHash r hold
    · rw [hhash, hid]
    · exact hs.tokenHash row hmem
  · intro r hr
    rcases (hmem' r).mp hr with ⟨hold, -⟩ | rfl | rfl
    · exact Nat.lt_succ_of_lt (hs.family r hold)
    · exact hjoins ▸ Nat.lt_succ_of_lt (hs.family row hmem)
    · exact Nat.lt_succ_of_lt (hs.family row hmem)
  · intro r hr hrevoked hreplaced
    rcases (hmem' r).mp hr with ⟨hold, -⟩ | rfl | rfl
    · exact hdead _ (hs.dead r hold hrevoked hreplaced)
    · exact absurd hlive hrevoked
    · exact nomatch hreplaced
  · intro r hr hrevoked
    refine (hmem' r).mpr (.inl ⟨hr, fun heq => ?_⟩)
    rw [eq_of_row_id hr hmem heq] at hrevoked
    exact hrevoked hwas
  · intro r hfamily
    have hother : row.familyId ≠ r.familyId := fun heq => hfamily (congrArg some heq)
    rw [hmem']
    constructor
    · rintro (⟨hold, -⟩ | rfl | rfl)
      · exact hold
      · exact absurd hjoins.symm hother
      · exact absurd rfl hother
    · intro hr
      exact .inl ⟨hr, fun heq => hother (by rw [eq_of_row_id hr hmem heq])⟩

/-- A revoked family. -/
theorem revokes_sound (hs : Sound db.tokens serial) (familyId : Id) :
    Sound (db.tokens.revoke (db.liveIds familyId) now) (serial + 1) ∧
      Keeps db.tokens (db.tokens.revoke (db.liveIds familyId) now) serial ∧
      Frame db.tokens (db.tokens.revoke (db.liveIds familyId) now) (some familyId) := by
  have hdead : ∀ family, Dead db.tokens family →
      Dead (db.tokens.revoke (db.liveIds familyId) now) family := by
    intro family hdead r hr hfamily
    rcases mem_revoke_family.mp hr with ⟨hold, -⟩ | ⟨r₀, -, -, -, rfl⟩
    · exact hdead r hold hfamily
    · nofun
  refine ⟨⟨?_, ?_, ?_, ?_⟩, ⟨?_, fun family _ => hdead family⟩, ?_⟩
  · intro r hr
    rcases mem_revoke_family.mp hr with ⟨hold, -⟩ | ⟨r₀, hr₀, -, -, rfl⟩
    · exact Nat.lt_succ_of_lt (hs.id r hold)
    · exact Nat.lt_succ_of_lt (hs.id r₀ hr₀)
  · intro r hr
    rcases mem_revoke_family.mp hr with ⟨hold, -⟩ | ⟨r₀, hr₀, -, -, rfl⟩
    · exact hs.tokenHash r hold
    · exact hs.tokenHash r₀ hr₀
  · intro r hr
    rcases mem_revoke_family.mp hr with ⟨hold, -⟩ | ⟨r₀, hr₀, -, -, rfl⟩
    · exact Nat.lt_succ_of_lt (hs.family r hold)
    · exact Nat.lt_succ_of_lt (hs.family r₀ hr₀)
  · intro r hr hrevoked hreplaced
    rcases mem_revoke_family.mp hr with ⟨hold, -⟩ | ⟨r₀, -, hfamily, -, rfl⟩
    · exact hdead _ (hs.dead r hold hrevoked hreplaced)
    · rw [hfamily]
      exact revoke_family_dead db familyId now
  · intro r hr hrevoked
    exact mem_revoke_family.mpr (.inl ⟨hr, fun hcond => hrevoked hcond.2⟩)
  · intro r hother
    have hne : r.familyId ≠ familyId := fun heq => hother (congrArg some heq.symm)
    rw [mem_revoke_family]
    constructor
    · rintro (⟨hold, -⟩ | ⟨r₀, -, hfamily, -, rfl⟩)
      · exact hold
      · exact absurd hfamily hne
    · intro hr
      exact .inl ⟨hr, fun hcond => hne hcond.1⟩

/-- **A call keeps the invariant, the revoked rows, the dead families and all other families.** -/
theorem touches_sound {family : Option Id} (hs : Sound db.tokens serial)
    (h : Touches db serial now family t) :
    Sound t (serial + 1) ∧ Keeps db.tokens t serial ∧ Frame db.tokens t family := by
  cases h with
  | keep => exact ⟨keep_sound hs, Keeps.refl _ _, fun _ _ => Iff.rfl⟩
  | opens insert id tokenHash joins live about =>
    obtain rfl := about
    exact opens_sound hs insert id tokenHash joins live
  | exchanges mem wasLive insert id tokenHash joins live about =>
    obtain rfl := about
    exact exchanges_sound hs mem wasLive insert id tokenHash joins live
  | revokes mem about =>
    obtain rfl := about
    exact revokes_sound hs _

/-! ## 4. A history -/

/-- What the table knows of the exchanges in the log. -/
def Recorded (t : TokenTable) (log : List Entry) : Prop :=
  ∀ e ∈ log, ∀ token userAgent tokens, e.request = .refresh token userAgent →
    e.answer = .issued tokens → ∃ r ∈ t.rows, r.tokenHash = .sha256 token ∧
      r.revokedAt = some e.now ∧ r.replacedBy.isSome = true

/-- The invariant of a history. -/
structure Server.Inv (s : Server) : Prop where
  sound : Sound s.db.tokens s.log.length
  recorded : Recorded s.db.tokens s.log

variable {s s' : Server}

theorem start_inv (users : List User) : (Server.start users).Inv :=
  ⟨⟨nofun, nofun, nofun, nofun⟩, nofun⟩

/-- A call, as a step of the history. -/
theorem step_call {request : Request} (h : s.step cfg (.call request now) = some s') :
    s'.db = (call cfg s.db s.log.length now request).1 ∧
      s'.log = ⟨request, now, (call cfg s.db s.log.length now request).2⟩ :: s.log := by
  simp only [Server.step] at h
  split at h
  · obtain rfl := Option.some.inj h
    exact ⟨rfl, rfl⟩
  · exact nomatch h

theorem step_answer {request : Request} (h : s.step cfg (.call request now) = some s') :
    s'.answer? = some (call cfg s.db s.log.length now request).2 := by
  rw [Server.answer?, (step_call h).2]
  rfl

/-- Two rows found by one hash are one row. -/
theorem eq_of_getByHash {token : Token} (hrow : db.getByHash (.sha256 token) = some row)
    (hr : r ∈ db.tokens.rows) (hhash : r.tokenHash = .sha256 token) : r = row := by
  obtain ⟨hmem, hrowHash⟩ := mem_of_getByHash hrow
  exact List.inj_on_of_nodup_map db.tokens.uxTokenHash hr hmem (hhash.trans hrowHash.symm)

/-- What a refresh that succeeds leaves behind. -/
theorem exchange_records (hs : Sound db.tokens serial) {token : Token} {tokens : IssuedTokens}
    {answer : Answer} (h : Refreshed cfg db serial now token db' answer)
    (hissued : answer = .issued tokens) :
    ∃ r ∈ db'.tokens.rows, r.tokenHash = .sha256 token ∧ r.revokedAt = some now ∧
      r.replacedBy.isSome = true := by
  cases h with
  | @exchanged row user t userAgent hrow unexpired live active insert =>
    obtain ⟨hmem, hhash⟩ := mem_of_getByHash hrow
    have hne : (newRow cfg serial user.id row.familyId now userAgent).id ≠ row.id :=
      Nat.ne_of_gt (hs.id row hmem)
    exact ⟨_, (mem_exchange insert hne hmem).mpr (.inr (.inr rfl)), hhash, rfl, rfl⟩
  | _ => exact nomatch hissued

/-- **An event keeps the invariant.** -/
theorem event_inv {e : Event} (hs : s.Inv) (h : s.step cfg e = some s') : s'.Inv := by
  cases e with
  | users users =>
    obtain rfl := Option.some.inj h
    exact ⟨hs.sound, hs.recorded⟩
  | call request now =>
    obtain ⟨hdb, hlog⟩ := step_call h
    obtain ⟨hsound, hkeeps, -⟩ := touches_sound hs.sound
      (call_touches cfg s.db s.log.length now request)
    rw [← hdb] at hsound hkeeps
    refine ⟨by rw [hlog]; exact hsound, ?_⟩
    rw [hlog]
    rintro e he token userAgent tokens hrequest hanswer
    rcases List.mem_cons.mp he with rfl | hold
    · obtain rfl : request = .refresh token userAgent := hrequest
      rw [hdb]
      exact exchange_records hs.sound
        (refresh_cases cfg s.db s.log.length now token userAgent) hanswer
    · obtain ⟨r, hr, hhash, hrevoked, hreplaced⟩ :=
        hs.recorded e hold token userAgent tokens hrequest hanswer
      exact ⟨r, hkeeps.revoked r hr (by rw [hrevoked]; nofun), hhash, hrevoked, hreplaced⟩

/-- The invariant along a history. -/
theorem history_inv {ls : List Event} (hs : s.Inv) (h : run (Server.step cfg) s ls = some s') :
    s'.Inv := run_invariant_of_step (fun _ _ _ hi hstep => event_inv hi hstep) hs h

/-- A dead family stays dead. -/
theorem dead_event {e : Event} (hs : s.Inv) (hlt : familyId < s.log.length)
    (hdead : Dead s.db.tokens familyId) (h : s.step cfg e = some s') :
    familyId < s'.log.length ∧ Dead s'.db.tokens familyId := by
  cases e with
  | users users =>
    obtain rfl := Option.some.inj h
    exact ⟨hlt, hdead⟩
  | call request now =>
    obtain ⟨hdb, hlog⟩ := step_call h
    obtain ⟨-, hkeeps, -⟩ := touches_sound hs.sound
      (call_touches cfg s.db s.log.length now request)
    rw [← hdb] at hkeeps
    rw [hlog]
    exact ⟨Nat.lt_succ_of_lt hlt, hkeeps.dead familyId hlt hdead⟩

/-- A token of a dead family is not exchanged. -/
theorem dead_refresh {token : Token} {answer : Answer} (hdead : Dead db.tokens familyId)
    (hrow : db.getByHash (.sha256 token) = some row) (hfamily : row.familyId = familyId)
    (h : Refreshed cfg db serial now token db' answer) : answer = .invalidRefreshToken := by
  have hrevoked : ∀ {row' : TokenRow}, db.getByHash (.sha256 token) = some row' →
      row'.revokedAt ≠ none := by
    intro row' hrow'
    obtain rfl := Option.some.inj (hrow.symm.trans hrow')
    exact hdead row (mem_of_getByHash hrow).1 hfamily
  cases h with
  | exchanged hrow' unexpired live active insert => exact absurd live (hrevoked hrow')
  | clash hrow' unexpired live active insert => exact absurd live (hrevoked hrow')
  | _ => rfl

/-- **A dead family is dead for good.** -/
theorem dead_for_good (hs : s.Inv) (hlt : familyId < s.log.length)
    (hdead : Dead s.db.tokens familyId) : DeadForGood cfg s familyId := by
  intro ls s' hrun
  have hinv : s'.Inv ∧ familyId < s'.log.length ∧ Dead s'.db.tokens familyId := by
    have hpreserved : ∀ (s : Server) e s',
        (s.Inv ∧ familyId < s.log.length ∧ Dead s.db.tokens familyId) → s.step cfg e = some s' →
        s'.Inv ∧ familyId < s'.log.length ∧ Dead s'.db.tokens familyId := by
      rintro s e s' ⟨hs, hlt, hdead⟩ hstep
      exact ⟨event_inv hs hstep, dead_event hs hlt hdead hstep⟩
    exact run_invariant_of_step hpreserved ⟨hs, hlt, hdead⟩ hrun
  refine ⟨hinv.2.2, ?_⟩
  intro token userAgent now s'' row hrow hfamily hstep
  rw [step_answer hstep, dead_refresh hinv.2.2 hrow hfamily
    (refresh_cases cfg s'.db s'.log.length now token userAgent)]

/-- **The second refresh.** -/
theorem replayed {token : Token} {userAgent : Option String} {at_ : Time} (hs : s.Inv)
    (hr : r ∈ s.db.tokens.rows) (hhash : r.tokenHash = .sha256 token)
    (hrevoked : r.revokedAt = some at_) (hreplaced : r.replacedBy.isSome = true)
    (hunexpired : now ≤ r.expiresAt)
    (hstep : s.step cfg (.call (.refresh token userAgent) now) = some s') :
    Replayed cfg s s' r.familyId at_ now := by
  obtain ⟨hdb, hlog⟩ := step_call hstep
  have hanswer := step_answer hstep
  have hlt : r.familyId < s'.log.length := by
    rw [hlog]
    exact Nat.lt_succ_of_lt (hs.sound.family r hr)
  have hrow : ∀ {row : TokenRow}, s.db.getByHash (.sha256 token) = some row → row = r :=
    fun hrow => (eq_of_getByHash hrow hr hhash).symm
  have hinv := event_inv hs hstep
  have hcases := refresh_cases cfg s.db s.log.length now token userAgent
  rw [← hdb] at hcases
  generalize (call cfg s.db s.log.length now (.refresh token userAgent)).2 = answer
    at hanswer hcases
  generalize hdb' : s'.db = db' at hcases
  cases hcases with
  | unknown hnone =>
    have hfind := List.find?_eq_none.mp hnone r hr
    exact absurd hhash (by simpa using hfind)
  | expired hfound expired =>
    obtain rfl := hrow hfound
    exact absurd hunexpired (Int.not_le.mpr expired)
  | raced hfound unexpired revoked grace =>
    obtain rfl := hrow hfound
    obtain rfl := Option.some.inj (revoked.symm.trans hrevoked)
    refine ⟨hanswer, fun hlate => absurd grace.2 (Int.not_le.mpr hlate), fun _ => ?_⟩
    rw [hdb']
  | stolen hfound unexpired revoked late =>
    obtain rfl := hrow hfound
    obtain rfl := Option.some.inj (revoked.symm.trans hrevoked)
    refine ⟨hanswer, fun _ => dead_for_good hinv hlt ?_, fun hgrace =>
      absurd ⟨hreplaced, hgrace⟩ late⟩
    rw [hdb']
    exact revoke_family_dead s.db _ now
  | inactive hfound unexpired live inactive =>
    obtain rfl := hrow hfound
    exact nomatch live.symm.trans hrevoked
  | exchanged hfound unexpired live active insert =>
    obtain rfl := hrow hfound
    exact nomatch live.symm.trans hrevoked
  | clash hfound unexpired live active insert =>
    obtain rfl := hrow hfound
    exact nomatch live.symm.trans hrevoked

/-- A failing refresh that is no late replay. -/
theorem refresh_keeps {token : Token} {answer : Answer} (hs : Sound db.tokens serial)
    (h : Refreshed cfg db serial now token db' answer) (hfails : ∀ tokens, answer ≠ .issued tokens)
    (hlate : ¬ LateReplay db token now) :
    answer = .invalidRefreshToken ∧ db'.tokens = db.tokens := by
  cases h with
  | @stolen row at_ hrow unexpired revoked late =>
    refine ⟨rfl, revoke_dead ?_⟩
    cases hreplaced : row.replacedBy with
    | none => exact hs.dead row (mem_of_getByHash hrow).1 (by rw [revoked]; nofun) hreplaced
    | some newId =>
      have hgrace : ¬ now - at_ ≤ rotationGrace := fun hle => late ⟨by rw [hreplaced]; rfl, hle⟩
      exact absurd ⟨row, at_, hrow, unexpired, revoked, by rw [hreplaced]; rfl,
        Int.not_le.mp hgrace⟩ hlate
  | exchanged hrow unexpired live active insert => exact absurd rfl (hfails _)
  | @clash row user userAgent hrow unexpired live active insert =>
    -- the new identifier and the new token are not in the table
    obtain ⟨t, ht⟩ : ∃ t, db.tokens.insert?
        (newRow cfg serial user.id row.familyId now userAgent) = some t := by
      refine insert_isSome (fun r hr => Nat.ne_of_lt (hs.id r hr)) ?_
      intro r hr heq
      rw [hs.tokenHash r hr] at heq
      exact Nat.ne_of_lt (hs.id r hr) (TokenHash.sha256.inj heq)
    exact nomatch insert.symm.trans ht
  | _ => exact ⟨rfl, rfl⟩

/-! ## 5. The result -/

/-- **The replay of a rotated refresh token is detected.**  In every history: a token that was
exchanged and is presented again before it expires fails, more than the grace period later its
family is dead for good, and within the grace period nothing changes; a failing refresh that is no
such late replay changes nothing; and a call changes the rows of its own family only, which for a
login is a new one. -/
theorem refresh_replay (cfg : Config) (users : List User) (ls : List Event) (s : Server)
    (hrun : run (Server.step cfg) (Server.start users) ls = some s) :
    (∀ e ∈ s.log, ∀ token userAgent tokens, e.request = .refresh token userAgent →
      e.answer = .issued tokens → ∃ row ∈ s.db.tokens.rows, row.tokenHash = .sha256 token ∧
        ∀ now userAgent' s', s.step cfg (.call (.refresh token userAgent') now) = some s' →
          now ≤ row.expiresAt → Replayed cfg s s' row.familyId e.now now) ∧
    (∀ token userAgent now s', s.step cfg (.call (.refresh token userAgent) now) = some s' →
      (∀ tokens, s'.answer? ≠ some (.issued tokens)) → ¬ LateReplay s.db token now →
      s'.answer? = some .invalidRefreshToken ∧ s'.db.tokens = s.db.tokens) ∧
    (∀ request now s', s.step cfg (.call request now) = some s' →
      Frame s.db.tokens s'.db.tokens (request.family s.db s.log.length)) ∧
    ∀ r ∈ s.db.tokens.rows, r.familyId ≠ s.log.length := by
  have hs : s.Inv := history_inv (start_inv users) hrun
  refine ⟨?_, ?_, ?_, fun r hr => Nat.ne_of_lt (hs.sound.family r hr)⟩
  · intro e he token userAgent tokens hrequest hanswer
    obtain ⟨r, hr, hhash, hrevoked, hreplaced⟩ :=
      hs.recorded e he token userAgent tokens hrequest hanswer
    exact ⟨r, hr, hhash, fun now userAgent' s' hstep hunexpired =>
      replayed hs hr hhash hrevoked hreplaced hunexpired hstep⟩
  · intro token userAgent now s' hstep hfails hlate
    rw [step_answer hstep] at hfails ⊢
    rw [(step_call hstep).1]
    obtain ⟨hanswer, htokens⟩ := refresh_keeps hs.sound
      (refresh_cases cfg s.db s.log.length now token userAgent)
      (fun tokens heq => hfails tokens (congrArg some heq)) hlate
    exact ⟨congrArg some hanswer, htokens⟩
  · intro request now s' hstep
    rw [(step_call hstep).1]
    exact (touches_sound hs.sound (call_touches cfg s.db s.log.length now request)).2.2

/-- Token 0 is exchanged at 10 s. -/
def exchangeHistory : List Event :=
  [.call (.login "a@b.c" "pw" none) 0, .call (.refresh 0 none) 10000000]

/-- The exchanged token, presented again a minute and a second later. -/
theorem refresh_replay_late :
    ∃ s s', run (Server.step sampleConfig) (Server.start sampleUsers) exchangeHistory = some s ∧
      s.step sampleConfig (.call (.refresh 0 none) 71000000) = some s' ∧
      DeadForGood sampleConfig s' 0 := by
  let exchange : Entry := ⟨.refresh 0 none, 10000000,
    .issued (issued sampleConfig 1 { id := 0, email := "a@b.c", passwordHash := "pw" })⟩
  let exchanged : TokenRow :=
    { id := 0, userId := 0, familyId := 0, tokenHash := .sha256 0, expiresAt := days 14
      revokedAt := some 10000000, replacedBy := some 1 }
  have hend : (run (Server.step sampleConfig) (Server.start sampleUsers) exchangeHistory).map
      (fun s => (s.log.all fun e => e.now ≤ 71000000, s.log.head?,
        s.db.tokens.rows.find? fun r => r.tokenHash = .sha256 0)) =
      some (true, some exchange, some exchanged) := by decide
  obtain ⟨s, hs, heq⟩ := Option.map_eq_some_iff.mp hend
  simp only [Prod.mk.injEq, List.all_eq_true, decide_eq_true_eq] at heq
  obtain ⟨hclock, hhead, hfind⟩ := heq
  obtain ⟨s', hs'⟩ : ∃ s', s.step sampleConfig (.call (.refresh 0 none) 71000000) = some s' :=
    ⟨_, if_pos hclock⟩
  obtain ⟨row, hrow, hhash, hreplay⟩ := (refresh_replay sampleConfig sampleUsers exchangeHistory s
    hs).1 exchange (List.mem_of_mem_head? hhead) 0 none _ rfl rfl
  obtain rfl := eq_of_getByHash hfind hrow hhash
  exact ⟨s, s', hs, hs', (hreplay _ none s' hs' (by decide)).stolen (by decide)⟩

end AtlasKnowledge.Auth
