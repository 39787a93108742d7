/-
# Login, refresh and logout, statement by statement

`AuthService.login`, `refresh` and `logout` as machines under READ COMMITTED: a step is one
statement or the commit.  A read sees what is committed when it runs; what a transaction has
inserted or updated stays in its own program counter until its commit, where it reaches the
tables.  There are no row locks, as in the source.

A call draws at most one row id, one token plaintext and one family id (`new_id`,
`generate_refresh_token`); they are numbered by the call itself, so that two calls never draw
the same.  The password check, the access token and the two string methods of
`_normalize_email` are parameters.
-/
import AtlasKnowledge.Auth.Tokens
import AtlasKnowledge.Lib.Interleave
import AtlasKnowledge.Lib.Transition

namespace AtlasKnowledge.Auth

open Interleave Transition

/-! ## 1. Settings and answers -/

/-- The settings the service reads, and the code it calls: argon2, the JWT encoder, `str.strip`
and `str.lower`. -/
structure Config where
  refreshTokenTtlDays : Nat
  accessTokenTtlMin : Nat
  verifyPassword : String → String → Bool × Option String
  createAccessToken : Id → String → String
  strip : String → String
  lower : String → String

/-- `_ROTATION_GRACE`. -/
def rotationGrace : Time := 60 * 1000000

/-- `timedelta(days=days)`. -/
def days (n : Nat) : Time := n * (24 * 60 * 60 * 1000000)

/-- `_normalize_email`. -/
def Config.normalizeEmail (cfg : Config) (email : String) : String := cfg.lower (cfg.strip email)

/-- `IssuedTokens`. -/
structure IssuedTokens where
  user : User
  accessToken : String
  refreshToken : Token
  expiresIn : Nat
  deriving DecidableEq, Repr

/-- What a call returns or raises; `aborted` is a database error or a cancelled request, whose
transaction is rolled back. -/
inductive Answer where
  | issued (tokens : IssuedTokens)
  | loggedOut
  | invalidCredentials
  | userInactive
  | invalidRefreshToken
  | aborted
  deriving DecidableEq, Repr

/-- What the call's transaction has done to `refresh_tokens`, once it has committed. -/
inductive Committed where
  | nothing
  | opened (familyId : Id)
  | exchanged (rowId newId : Id)
  | revoked (familyId : Id)
  deriving DecidableEq, Repr

/-! ## 2. The program counter -/

/-- Where a call stands; the constructor names the statement that comes next. -/
inductive Pc where
  /-- login: `get_by_email`, the password and the activity of the user. -/
  | loginStart (email password : String) (userAgent : Option String)
  /-- login: `_issue`, with the flush of a new password hash. -/
  | loginInsert (user : User) (newHash : Option String) (userAgent : Option String)
  /-- login: the commit. -/
  | loginCommit (user : User) (newHash : Option String) (new : TokenRow)
  /-- refresh: `get_by_hash`, and the checks on the row. -/
  | refreshStart (token : Token) (userAgent : Option String)
  /-- refresh: `get_by_id`, and the activity of the user. -/
  | refreshUser (now : Time) (row : TokenRow) (userAgent : Option String)
  /-- refresh: the insert of the new row. -/
  | refreshInsert (now : Time) (row : TokenRow) (user : User) (userAgent : Option String)
  /-- refresh: the update of the old row. -/
  | refreshUpdate (now : Time) (row : TokenRow) (user : User) (new : TokenRow)
  /-- refresh: the commit. -/
  | refreshCommit (now : Time) (row : TokenRow) (user : User) (new : TokenRow)
  /-- logout: `get_by_hash`. -/
  | logoutStart (token : Option Token)
  /-- logout: the commit of a transaction that wrote nothing. -/
  | logoutCommit
  /-- `revoke_family`: the update. -/
  | revoking (now : Time) (familyId : Id) (answer : Answer)
  /-- `revoke_family`: the commit. -/
  | revokeCommit (now : Time) (familyId : Id) (ids : List Id) (answer : Answer)
  | done (answer : Answer) (committed : Committed)
  deriving DecidableEq, Repr

/-- A call and the number from which it draws its identifiers. -/
structure Call where
  serial : Nat
  pc : Pc
  deriving DecidableEq, Repr

/-- What the environment decides: the reading of the clock, or that the statement raises. -/
inductive Choice where
  | go (now : Time)
  | abort
  deriving DecidableEq, Repr

/-! ## 3. The statements -/

/-- The row `_issue` creates. -/
def newRow (cfg : Config) (serial : Nat) (userId familyId : Id) (now : Time)
    (userAgent : Option String) : TokenRow :=
  { id := serial, userId := userId, familyId := familyId, tokenHash := .sha256 serial,
    expiresAt := now + days cfg.refreshTokenTtlDays, userAgent := userAgent }

/-- What `_issue` returns. -/
def issued (cfg : Config) (serial : Nat) (user : User) : IssuedTokens :=
  { user := user, accessToken := cfg.createAccessToken user.id user.role, refreshToken := serial,
    expiresIn := cfg.accessTokenTtlMin * 60 }

/-- login, up to the insert. -/
def checkLogin (cfg : Config) (db : Db) (email password : String) (userAgent : Option String) :
    Pc :=
  match db.getByEmail (cfg.normalizeEmail email) with
  | none => .done .invalidCredentials .nothing
  | some user =>
    match cfg.verifyPassword user.passwordHash password with
    | (false, _) => .done .invalidCredentials .nothing
    | (true, newHash) =>
      if user.isActive then .loginInsert user newHash userAgent
      else .done .userInactive .nothing

/-- refresh: the checks on the row that `get_by_hash` has found. -/
def checkRow (row : TokenRow) (now : Time) (userAgent : Option String) : Pc :=
  if row.expiresAt < now then .done .invalidRefreshToken .nothing
  else
    match row.revokedAt with
    | none => .refreshUser now row userAgent
    | some revokedAt =>
      if row.replacedBy.isSome ∧ now - revokedAt ≤ rotationGrace then
        .done .invalidRefreshToken .nothing
      else .revoking now row.familyId .invalidRefreshToken

/-- refresh: the check on the user. -/
def checkUser (db : Db) (now : Time) (row : TokenRow) (userAgent : Option String) : Pc :=
  match db.getById row.userId with
  | none => .done .invalidRefreshToken .nothing
  | some user =>
    if user.isActive then .refreshInsert now row user userAgent
    else .done .invalidRefreshToken .nothing

/-- The next statement goes through, with the clock at `now`. -/
def goPc (cfg : Config) (db : Db) (serial : Nat) (now : Time) : Pc → Option (Db × Pc)
  | .loginStart email password userAgent => some (db, checkLogin cfg db email password userAgent)
  | .loginInsert user newHash userAgent =>
    some (db, .loginCommit user newHash (newRow cfg serial user.id serial now userAgent))
  | .loginCommit user newHash new =>
    some (match db.tokens.insert? new with
      | some tokens =>
        ({ db.rehash user.id newHash with tokens := tokens },
          .done (.issued (issued cfg serial user)) (.opened new.familyId))
      | none => (db, .done .aborted .nothing))
  | .refreshStart token userAgent =>
    some (db, match db.getByHash (.sha256 token) with
      | none => .done .invalidRefreshToken .nothing
      | some row => checkRow row now userAgent)
  | .refreshUser at_ row userAgent => some (db, checkUser db at_ row userAgent)
  | .refreshInsert at_ row user userAgent =>
    some (db, .refreshUpdate at_ row user
      (newRow cfg serial user.id row.familyId at_ userAgent))
  | .refreshUpdate at_ row user new => some (db, .refreshCommit at_ row user new)
  | .refreshCommit at_ row user new =>
    some (match db.tokens.insert? new with
      | some tokens =>
        ({ db with tokens := tokens.replace row.id at_ new.id },
          .done (.issued (issued cfg serial user)) (.exchanged row.id new.id))
      | none => (db, .done .aborted .nothing))
  | .logoutStart token =>
    some (db, match token.bind fun t => db.getByHash (.sha256 t) with
      | none => .logoutCommit
      | some row => .revoking now row.familyId .loggedOut)
  | .logoutCommit => some (db, .done .loggedOut .nothing)
  | .revoking at_ familyId answer =>
    some (db, .revokeCommit at_ familyId (db.liveIds familyId) answer)
  | .revokeCommit at_ familyId ids answer =>
    some ({ db with tokens := db.tokens.revoke ids at_ }, .done answer (.revoked familyId))
  | .done _ _ => none

/-- One step of a call.  A statement that raises rolls the transaction back. -/
def stepPc (cfg : Config) (db : Db) (serial : Nat) (pc : Pc) : Choice → Option (Db × Pc)
  | .go now => goPc cfg db serial now pc
  | .abort =>
    match pc with
    | .done _ _ => none
    | _ => some (db, .done .aborted .nothing)

/-! ## 4. The system -/

/-- The calls that may arrive. -/
inductive Request where
  | login (email password : String) (userAgent : Option String)
  | refresh (token : Token) (userAgent : Option String)
  | logout (token : Option Token)
  deriving DecidableEq, Repr

/-- Where a call begins. -/
def Request.start : Request → Pc
  | .login email password userAgent => .loginStart email password userAgent
  | .refresh token userAgent => .refreshStart token userAgent
  | .logout token => .logoutStart token

/-- What happens next. -/
inductive Label where
  | call (request : Request)
  | act (i : Nat) (c : Choice)
  deriving DecidableEq, Repr

/-- The tables and the calls. -/
abbrev Sys := Par Db Call

/-- The next statement of a call. -/
def Call.step (cfg : Config) (db : Db) (c : Call) (choice : Choice) : Option (Db × Call) :=
  (stepPc cfg db c.serial c.pc choice).map fun r => (r.1, { c with pc := r.2 })

/-- One step of the system: a call arrives, or a call in progress takes a step. -/
def Sys.step (cfg : Config) (s : Sys) : Label → Option Sys
  | .call request => some (s.spawn { serial := s.parties.length, pc := request.start })
  | .act i c => s.act (Call.step cfg) i c

/-- The system before anybody has logged in. -/
def start (users : List User) : Sys := ⟨⟨users, .empty⟩, []⟩

/-! ## 5. What a step can do -/

/-- The row a refresh has read and means to exchange. -/
def Pc.held : Pc → Option TokenRow
  | .refreshUser _ row _ => some row
  | .refreshInsert _ row _ _ => some row
  | .refreshUpdate _ row _ _ => some row
  | .refreshCommit _ row _ _ => some row
  | _ => none

/-- The family whose revocation has not committed yet. -/
def Pc.uncommittedRevoke : Pc → Option Id
  | .revokeCommit _ familyId _ _ => some familyId
  | _ => none

/-- What the call has committed by now. -/
def Pc.committed : Pc → Committed
  | .done _ committed => committed
  | _ => .nothing

/-- The row that this reading of the clock lets a refresh exchange. -/
def Pc.reads (db : Db) (now : Time) : Pc → Option TokenRow
  | .refreshStart token _ =>
    (db.getByHash (.sha256 token)).filter fun row => ¬ row.expiresAt < now ∧ row.revokedAt = none
  | _ => none

/-- What the statements make of a call: the three commits that write, the read that lets a
refresh go on, the update of `revoke_family`, and, as `move`, all the others. -/
inductive Effect (cfg : Config) (db : Db) (serial : Nat) : Pc → Choice → Db → Pc → Prop where
  | login {user : User} {newHash : Option String} {new : TokenRow} {tokens : TokenTable}
      {now : Time} (h : db.tokens.insert? new = some tokens) :
      Effect cfg db serial (.loginCommit user newHash new) (.go now)
        { db.rehash user.id newHash with tokens := tokens }
        (.done (.issued (issued cfg serial user)) (.opened new.familyId))
  | exchange {at_ now : Time} {row new : TokenRow} {user : User} {tokens : TokenTable}
      (h : db.tokens.insert? new = some tokens) :
      Effect cfg db serial (.refreshCommit at_ row user new) (.go now)
        { db with tokens := tokens.replace row.id at_ new.id }
        (.done (.issued (issued cfg serial user)) (.exchanged row.id new.id))
  | revoke {at_ now : Time} {familyId : Id} {ids : List Id} {answer : Answer} :
      Effect cfg db serial (.revokeCommit at_ familyId ids answer) (.go now)
        { db with tokens := db.tokens.revoke ids at_ } (.done answer (.revoked familyId))
  | read {pc : Pc} {now : Time} {row : TokenRow} {userAgent : Option String}
      (h : pc.reads db now = some row) :
      Effect cfg db serial pc (.go now) db (.refreshUser now row userAgent)
  | collect {at_ now : Time} {familyId : Id} {answer : Answer} :
      Effect cfg db serial (.revoking at_ familyId answer) (.go now) db
        (.revokeCommit at_ familyId (db.liveIds familyId) answer)
  | move {pc pc' : Pc} {c : Choice} (held : pc'.held = none ∨ pc'.held = pc.held)
      (revokes : pc'.uncommittedRevoke = none) (commits : pc'.committed = .nothing) :
      Effect cfg db serial pc c db pc'

variable {cfg : Config} {db db' : Db} {serial : Nat} {pc pc' : Pc} {c : Choice} {now : Time}

theorem checkLogin_spec (cfg : Config) (db : Db) (email password : String)
    (userAgent : Option String) :
    (checkLogin cfg db email password userAgent).held = none ∧
      (checkLogin cfg db email password userAgent).uncommittedRevoke = none ∧
      (checkLogin cfg db email password userAgent).committed = .nothing := by
  unfold checkLogin
  split
  · exact ⟨rfl, rfl, rfl⟩
  · split
    · exact ⟨rfl, rfl, rfl⟩
    · split <;> exact ⟨rfl, rfl, rfl⟩

/-- The checks on the row: a live, unexpired row is read, and anything else is no exchange. -/
theorem checkRow_effect {token : Token} {row : TokenRow} (userAgent : Option String)
    (hrow : db.getByHash (.sha256 token) = some row) :
    Effect cfg db serial (.refreshStart token userAgent) (.go now) db
      (checkRow row now userAgent) := by
  unfold checkRow
  split
  · exact .move (Or.inl rfl) rfl rfl
  · rename_i hexpires
    split
    · rename_i hlive
      refine .read ?_
      simp [Pc.reads, hrow, hlive, Int.not_lt.mp hexpires]
    · split <;> exact .move (Or.inl rfl) rfl rfl

theorem checkUser_effect {row : TokenRow} {at_ : Time} (userAgent : Option String) :
    Effect cfg db serial (.refreshUser at_ row userAgent) c db
      (checkUser db at_ row userAgent) := by
  unfold checkUser
  split
  · exact .move (Or.inl rfl) rfl rfl
  · split
    · exact .move (Or.inr rfl) rfl rfl
    · exact .move (Or.inl rfl) rfl rfl

/-- **What one statement can do.** -/
theorem stepPc_effect (h : stepPc cfg db serial pc c = some (db', pc')) :
    Effect cfg db serial pc c db' pc' := by
  cases c with
  | abort =>
    cases pc with
    | done answer committed => exact nomatch h
    | _ =>
      obtain ⟨rfl, rfl⟩ := Prod.mk.inj (Option.some.inj h)
      exact .move (Or.inl rfl) rfl rfl
  | go now =>
    cases pc with
    | loginStart email password userAgent =>
      obtain ⟨rfl, rfl⟩ := Prod.mk.inj (Option.some.inj h)
      have hspec := checkLogin_spec cfg db email password userAgent
      exact .move (Or.inl hspec.1) hspec.2.1 hspec.2.2
    | loginInsert user newHash userAgent =>
      obtain ⟨rfl, rfl⟩ := Prod.mk.inj (Option.some.inj h)
      exact .move (Or.inl rfl) rfl rfl
    | loginCommit user newHash new =>
      obtain h := Option.some.inj h
      split at h
      · rename_i tokens htokens
        obtain ⟨rfl, rfl⟩ := Prod.mk.inj h
        exact .login htokens
      · obtain ⟨rfl, rfl⟩ := Prod.mk.inj h
        exact .move (Or.inl rfl) rfl rfl
    | refreshStart token userAgent =>
      obtain h := Option.some.inj h
      split at h
      · obtain ⟨rfl, rfl⟩ := Prod.mk.inj h
        exact .move (Or.inl rfl) rfl rfl
      · rename_i row hrow
        obtain ⟨rfl, rfl⟩ := Prod.mk.inj h
        exact checkRow_effect userAgent hrow
    | refreshUser at_ row userAgent =>
      obtain ⟨rfl, rfl⟩ := Prod.mk.inj (Option.some.inj h)
      exact checkUser_effect userAgent
    | refreshInsert at_ row user userAgent =>
      obtain ⟨rfl, rfl⟩ := Prod.mk.inj (Option.some.inj h)
      exact .move (Or.inr rfl) rfl rfl
    | refreshUpdate at_ row user new =>
      obtain ⟨rfl, rfl⟩ := Prod.mk.inj (Option.some.inj h)
      exact .move (Or.inr rfl) rfl rfl
    | refreshCommit at_ row user new =>
      obtain h := Option.some.inj h
      split at h
      · rename_i tokens htokens
        obtain ⟨rfl, rfl⟩ := Prod.mk.inj h
        exact .exchange htokens
      · obtain ⟨rfl, rfl⟩ := Prod.mk.inj h
        exact .move (Or.inl rfl) rfl rfl
    | logoutStart token =>
      obtain h := Option.some.inj h
      split at h <;> obtain ⟨rfl, rfl⟩ := Prod.mk.inj h <;> exact .move (Or.inl rfl) rfl rfl
    | logoutCommit =>
      obtain ⟨rfl, rfl⟩ := Prod.mk.inj (Option.some.inj h)
      exact .move (Or.inl rfl) rfl rfl
    | revoking at_ familyId answer =>
      obtain ⟨rfl, rfl⟩ := Prod.mk.inj (Option.some.inj h)
      exact .collect
    | revokeCommit at_ familyId ids answer =>
      obtain ⟨rfl, rfl⟩ := Prod.mk.inj (Option.some.inj h)
      exact .revoke
    | done answer committed => exact nomatch h

/-- **What one step of the system can do.** -/
inductive SysStep (cfg : Config) (s : Sys) : Label → Sys → Prop where
  | call (request : Request) :
      SysStep cfg s (.call request) (s.spawn { serial := s.parties.length, pc := request.start })
  | act {i : Nat} {choice : Choice} {c : Call} {db : Db} {pc : Pc}
      (at_ : s.parties[i]? = some c)
      (step : stepPc cfg s.shared c.serial c.pc choice = some (db, pc)) :
      SysStep cfg s (.act i choice) ⟨db, s.parties.set i { c with pc := pc }⟩

theorem step_cases {s s' : Sys} {l : Label} (h : s.step cfg l = some s') : SysStep cfg s l s' := by
  cases l with
  | call request =>
    obtain rfl := Option.some.inj h
    exact .call request
  | act i choice =>
    obtain ⟨c, db, c', hc, hstep, rfl⟩ := Par.act_eq_some.mp h
    obtain ⟨⟨db', pc⟩, hpc, heq⟩ := Option.map_eq_some_iff.mp hstep
    obtain ⟨rfl, rfl⟩ := Prod.mk.inj heq
    exact .act hc hpc

/-- The step of a call, as a step of the system. -/
theorem step_act {s : Sys} {i : Nat} {call : Call} {choice : Choice}
    (hc : s.parties[i]? = some call)
    (h : stepPc cfg s.shared call.serial call.pc choice = some (db, pc)) :
    s.step cfg (.act i choice) = some ⟨db, s.parties.set i { call with pc := pc }⟩ :=
  Par.act_eq_some.mpr ⟨call, db, { call with pc := pc }, hc, by simp [Call.step, h], rfl⟩

/-! ## 6. A small instance -/

/-- Passwords compared as they are, tokens of two weeks. -/
def sampleConfig : Config where
  refreshTokenTtlDays := 14
  accessTokenTtlMin := 15
  verifyPassword := fun passwordHash password => (passwordHash = password, none)
  createAccessToken := fun _ _ => "jwt"
  strip := id
  lower := id

def sampleUsers : List User := [{ id := 0, email := "a@b.c", passwordHash := "pw" }]

/-- The user logs in: call 0 opens family 0 with row 0 and token 0. -/
def loginRun : List Label :=
  [.call (.login "a@b.c" "pw" none), .act 0 (.go 0), .act 0 (.go 0), .act 0 (.go 0)]

end AtlasKnowledge.Auth
