/-
# Users and refresh tokens

The two tables of the session service (`User`, `RefreshToken` of `infrastructure/db/models.py`)
and the SQL of `UserRepository` and `RefreshTokenRepository`.

A plaintext refresh token is random, and the table stores its sha256 only.  Plaintexts are
numbered here, and a digest is the number under a constructor: two tokens with one digest do
not occur, and that is all the service relies on.
-/
import AtlasKnowledge.Domain.Document
import Mathlib.Data.List.Nodup

namespace AtlasKnowledge.Auth

/-! ## 1. Rows -/

/-- Microseconds. -/
abbrev Time := Int

/-- A plaintext of `generate_refresh_token`. -/
abbrev Token := Nat

/-- `hash_refresh_token`: the hex digest that is stored. -/
inductive TokenHash where
  | sha256 (token : Token)
  deriving DecidableEq, Repr

/-- The columns of `User` that the service reads. -/
structure User where
  id : Id
  email : String
  passwordHash : String
  role : String := "user"
  isActive : Bool := true
  deriving DecidableEq, Repr

/-- The columns of `RefreshToken`. -/
structure TokenRow where
  id : Id
  userId : Id
  familyId : Id
  tokenHash : TokenHash
  expiresAt : Time
  revokedAt : Option Time := none
  replacedBy : Option Id := none
  userAgent : Option String := none
  deriving DecidableEq, Repr

/-- `refresh_tokens`, with its primary key and the unique `token_hash`. -/
structure TokenTable where
  rows : List TokenRow
  pk : (rows.map TokenRow.id).Nodup
  uxTokenHash : (rows.map TokenRow.tokenHash).Nodup

/-- No tokens. -/
def TokenTable.empty : TokenTable := ⟨[], List.nodup_nil, List.nodup_nil⟩

/-- The two tables of the service. -/
structure Db where
  users : List User
  tokens : TokenTable

/-! ## 2. `UserRepository` -/

/-- `UserRepository.get_by_email`. -/
def Db.getByEmail (db : Db) (email : String) : Option User :=
  db.users.find? fun u => u.email = email

/-- `UserRepository.get_by_id`. -/
def Db.getById (db : Db) (userId : Id) : Option User := db.users.find? fun u => u.id = userId

/-- The user is there and active. -/
def Db.active (db : Db) (userId : Id) : Bool := (db.getById userId).any User.isActive

/-- `UPDATE users SET password_hash WHERE id = user_id`, on one row. -/
def User.withHash (userId : Id) (newHash : String) (u : User) : User :=
  if u.id = userId then { u with passwordHash := newHash } else u

/-- The flush of `user.password_hash = new_hash`. -/
def Db.rehash (db : Db) (userId : Id) (newHash : Option String) : Db :=
  match newHash with
  | none => db
  | some h => { db with users := db.users.map (User.withHash userId h) }

/-! ## 3. `RefreshTokenRepository` -/

/-- `get_by_hash`. -/
def Db.getByHash (db : Db) (tokenHash : TokenHash) : Option TokenRow :=
  db.tokens.rows.find? fun r => r.tokenHash = tokenHash

/-- The commit of `create`: `none` is an `IntegrityError`. -/
def TokenTable.insert? (t : TokenTable) (row : TokenRow) : Option TokenTable :=
  if h : row.id ∉ t.rows.map TokenRow.id ∧ row.tokenHash ∉ t.rows.map TokenRow.tokenHash then
    some
      { rows := t.rows ++ [row]
        pk := by
          rw [List.map_append, List.nodup_append]
          refine ⟨t.pk, by simp, ?_⟩
          intro a ha b hb heq
          obtain rfl : b = row.id := by simpa using hb
          exact h.1 (heq ▸ ha)
        uxTokenHash := by
          rw [List.map_append, List.nodup_append]
          refine ⟨t.uxTokenHash, by simp, ?_⟩
          intro a ha b hb heq
          obtain rfl : b = row.tokenHash := by simpa using hb
          exact h.2 (heq ▸ ha) }
  else none

/-- An update of `revoked_at` and `replaced_by`, row by row. -/
def TokenTable.update (t : TokenTable) (change : TokenRow → Option Time × Option Id) :
    TokenTable where
  rows := t.rows.map fun r => { r with revokedAt := (change r).1, replacedBy := (change r).2 }
  pk := by
    rw [List.map_map]
    exact t.pk
  uxTokenHash := by
    rw [List.map_map]
    exact t.uxTokenHash

/-- The flush of `row.revoked_at = now` and `row.replaced_by = new_row_id`: by primary key. -/
def TokenTable.replace (t : TokenTable) (rowId : Id) (now : Time) (newId : Id) : TokenTable :=
  t.update fun r => if r.id = rowId then (some now, some newId) else (r.revokedAt, r.replacedBy)

/-- The rows `revoke_family` updates: those of the family that are not revoked when it runs. -/
def Db.liveIds (db : Db) (familyId : Id) : List Id :=
  (db.tokens.rows.filter fun r => r.familyId = familyId ∧ r.revokedAt = none).map TokenRow.id

/-- The commit of `revoke_family`: a row that another transaction has revoked since is left as
it is, as the condition of the update is evaluated again on it. -/
def TokenTable.revoke (t : TokenTable) (ids : List Id) (now : Time) : TokenTable :=
  t.update fun r =>
    if r.id ∈ ids ∧ r.revokedAt = none then (some now, r.replacedBy)
    else (r.revokedAt, r.replacedBy)

/-! ## 4. What the repositories leave -/

variable {db : Db} {t t' : TokenTable} {row r : TokenRow}

/-- Two rows of a table with one id are one row. -/
theorem eq_of_row_id (hr : r ∈ t.rows) (hrow : row ∈ t.rows) (hid : r.id = row.id) : r = row :=
  List.inj_on_of_nodup_map t.pk hr hrow hid

/-- An insert that commits adds its row. -/
theorem insert_rows (h : t.insert? row = some t') : t'.rows = t.rows ++ [row] := by
  unfold TokenTable.insert? at h
  split at h
  · obtain rfl := Option.some.inj h
    rfl
  · exact nomatch h

theorem mem_insert (h : t.insert? row = some t') : r ∈ t'.rows ↔ r ∈ t.rows ∨ r = row := by
  rw [insert_rows h, List.mem_append, List.mem_singleton]

theorem insert_isSome (hid : ∀ r ∈ t.rows, r.id ≠ row.id)
    (hhash : ∀ r ∈ t.rows, r.tokenHash ≠ row.tokenHash) : ∃ t', t.insert? row = some t' := by
  have hfresh : row.id ∉ t.rows.map TokenRow.id ∧
    row.tokenHash ∉ t.rows.map TokenRow.tokenHash := by
    constructor
    · intro hmem
      obtain ⟨r, hr, heq⟩ := List.mem_map.mp hmem
      exact hid r hr heq
    · intro hmem
      obtain ⟨r, hr, heq⟩ := List.mem_map.mp hmem
      exact hhash r hr heq
  unfold TokenTable.insert?
  rw [dif_pos hfresh]
  exact ⟨_, rfl⟩

/-- A row after an update is a row before it, with its two columns changed. -/
theorem mem_update {change : TokenRow → Option Time × Option Id} :
    r ∈ (t.update change).rows ↔ ∃ r₀ ∈ t.rows,
      { r₀ with revokedAt := (change r₀).1, replacedBy := (change r₀).2 } = r := List.mem_map

/-- A row that is live after an exchange: an old one, other than the exchanged one, or the new
one. -/
theorem live_of_exchange {rowId newId : Id} {now : Time} {new : TokenRow}
    (h : t.insert? new = some t') (hr : r ∈ (t'.replace rowId now newId).rows)
    (hlive : r.revokedAt = none) : (r ∈ t.rows ∧ r.id ≠ rowId) ∨ r = new := by
  obtain ⟨r₀, hr₀, rfl⟩ := mem_update.mp hr
  by_cases hid : r₀.id = rowId
  · exact absurd hlive (by simp [hid])
  · have hsame : { r₀ with
        revokedAt := (if r₀.id = rowId then (some now, some newId)
          else (r₀.revokedAt, r₀.replacedBy)).1,
        replacedBy := (if r₀.id = rowId then (some now, some newId)
          else (r₀.revokedAt, r₀.replacedBy)).2 } = r₀ := by simp [hid]
    rw [hsame]
    rcases (mem_insert h).mp hr₀ with hold | hnew
    · exact Or.inl ⟨hold, hid⟩
    · exact Or.inr hnew

/-- A row that is live after a revocation was live before, and not one of those revoked. -/
theorem live_of_revoke {ids : List Id} {now : Time} (h : r ∈ (t.revoke ids now).rows)
    (hlive : r.revokedAt = none) : r ∈ t.rows ∧ r.id ∉ ids := by
  obtain ⟨r₀, hr₀, rfl⟩ := mem_update.mp h
  by_cases hcond : r₀.id ∈ ids ∧ r₀.revokedAt = none
  · exact absurd hlive (by simp [hcond])
  · simp only [hcond, if_false] at hlive ⊢
    exact ⟨hr₀, fun hmem => hcond ⟨hmem, hlive⟩⟩

/-- `get_by_hash` finds a row of the table. -/
theorem mem_of_getByHash {tokenHash : TokenHash} (h : db.getByHash tokenHash = some row) :
    row ∈ db.tokens.rows ∧ row.tokenHash = tokenHash := by
  refine ⟨List.mem_of_find?_eq_some h, ?_⟩
  simpa using List.find?_some h

theorem mem_liveIds {familyId id : Id} :
    id ∈ db.liveIds familyId ↔
      ∃ r ∈ db.tokens.rows, r.familyId = familyId ∧ r.revokedAt = none ∧ r.id = id := by
  simp only [Db.liveIds, List.mem_map, List.mem_filter, decide_eq_true_eq]
  constructor
  · rintro ⟨r, ⟨hr, hfamily, hlive⟩, hid⟩
    exact ⟨r, hr, hfamily, hlive, hid⟩
  · rintro ⟨r, hr, hfamily, hlive, hid⟩
    exact ⟨r, ⟨hr, hfamily, hlive⟩, hid⟩

@[simp] theorem withHash_id (userId : Id) (h : String) (u : User) :
    (u.withHash userId h).id = u.id := by
  unfold User.withHash
  split <;> rfl

@[simp] theorem withHash_isActive (userId : Id) (h : String) (u : User) :
    (u.withHash userId h).isActive = u.isActive := by
  unfold User.withHash
  split <;> rfl

/-- A new password hash changes nobody's activity. -/
theorem rehash_active (userId id : Id) (newHash : Option String) :
    (db.rehash userId newHash).active id = db.active id := by
  cases newHash with
  | none => rfl
  | some h =>
    simp only [Db.rehash, Db.active, Db.getById, List.find?_map, Function.comp_def, withHash_id]
    cases List.find? (fun u : User => decide (u.id = id)) db.users <;> simp

@[simp] theorem rehash_tokens (userId : Id) (newHash : Option String) :
    (db.rehash userId newHash).tokens = db.tokens := by
  cases newHash <;> rfl

end AtlasKnowledge.Auth
