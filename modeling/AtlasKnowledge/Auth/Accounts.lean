/-
# Registering and logging in

`AuthService.register` and `login` with the password functions of `core/security.py`, any number of
calls at once, statement by statement at READ COMMITTED.  What a transaction has inserted is seen
by no other query before its commit, but an insert that meets it in `ux_users_email` waits until
that transaction has ended.  A call may be cut off at any statement, and its commit may take effect
all the same.  An administrator activates and deactivates users.

A user's id is the number of the call that registers it, so two calls never draw the same.  The
refresh token that a login issues is with `Auth.Service`; `checkLogin_service` says that the checks
before it are the same.

* `accounts`: an email has one account at most, and a login comes in with the password of the call
  that registered it and with no other.
-/
import AtlasKnowledge.Auth.Service
import AtlasKnowledge.Lib.Assertions
import AtlasKnowledge.Lib.Str
import AtlasKnowledge.Lib.Transition

namespace AtlasKnowledge.Auth.Accounts

open Interleave Transition

/-! ## 1. Passwords -/

/-- `argon2.PasswordHasher`; a hash is salted. -/
structure PasswordHasher where
  hash : Nat → String → String
  verify : String → String → Bool
  checkNeedsRehash : String → Bool

/-- The code that is called: argon2 and `str.lower`. -/
structure Env where
  hasher : PasswordHasher
  lower : String → String

/-- `str.strip`. -/
def strip (s : String) : String := String.ofList (Str.strip s.toList)

/-- `_normalize_email`. -/
def Env.normalizeEmail (env : Env) (email : String) : String := env.lower (strip email)

/-- `verify_password`. -/
def verifyPassword (hasher : PasswordHasher) (salt : Nat) (passwordHash password : String) :
    Bool × Option String :=
  if hasher.verify passwordHash password = false then (false, none)
  else if hasher.checkNeedsRehash passwordHash then (true, some (hasher.hash salt password))
  else (true, none)

/-! ## 2. The users -/

/-- `users`, with its primary key and `ux_users_email`. -/
structure UserTable where
  rows : List User
  ids : (rows.map User.id).Nodup
  emails : (rows.map User.email).Nodup

namespace UserTable

/-- No users. -/
def empty : UserTable := ⟨[], List.nodup_nil, List.nodup_nil⟩

/-- `get_by_email`. -/
def getByEmail (t : UserTable) (email : String) : Option User :=
  t.rows.find? fun u => u.email = email

/-- The insert of a user: `none` is an `IntegrityError`. -/
def insert? (t : UserTable) (user : User) : Option UserTable :=
  if h : user.id ∉ t.rows.map User.id ∧ user.email ∉ t.rows.map User.email then
    some
      { rows := t.rows ++ [user]
        ids := by simpa using t.ids.concat h.1
        emails := by simpa using t.emails.concat h.2 }
  else none

/-- An update of columns other than the id and the email. -/
def update (t : UserTable) (f : User → User) (hf : ∀ u, (f u).id = u.id ∧ (f u).email = u.email) :
    UserTable where
  rows := t.rows.map f
  ids := by
    rw [List.map_map, show User.id ∘ f = User.id from funext fun u => (hf u).1]
    exact t.ids
  emails := by
    rw [List.map_map, show User.email ∘ f = User.email from funext fun u => (hf u).2]
    exact t.emails

theorem withHash_same (userId : Id) (newHash : String) (u : User) :
    (u.withHash userId newHash).id = u.id ∧ (u.withHash userId newHash).email = u.email := by
  unfold User.withHash
  split <;> exact ⟨rfl, rfl⟩

/-- The flush of `user.password_hash = new_hash`, where there is one. -/
def rehash (t : UserTable) (userId : Id) : Option String → UserTable
  | none => t
  | some newHash => t.update (User.withHash userId newHash) (withHash_same userId newHash)

/-- `UPDATE users SET is_active WHERE id = user_id`, on one row. -/
def withActive (userId : Id) (isActive : Bool) (u : User) : User :=
  if u.id = userId then { u with isActive := isActive } else u

theorem withActive_same (userId : Id) (isActive : Bool) (u : User) :
    (withActive userId isActive u).id = u.id ∧ (withActive userId isActive u).email = u.email := by
  unfold withActive
  split <;> exact ⟨rfl, rfl⟩

/-- An administrator switches a user on or off. -/
def setActive (t : UserTable) (userId : Id) (isActive : Bool) : UserTable :=
  t.update (withActive userId isActive) (withActive_same userId isActive)

end UserTable

/-! ## 3. The calls -/

/-- The calls of the service. -/
inductive Request where
  | register (email password : String)
  | login (email password : String)
  deriving DecidableEq, Repr

/-- What a call raises. -/
inductive Raised where
  | emailAlreadyRegistered
  | invalidCredentials
  | userInactive
  /-- A database error, or a cancelled request. -/
  | aborted
  deriving DecidableEq, Repr

/-- Where a call stands; the constructor names the statement that comes next. -/
inductive Pc where
  /-- `get_by_email`, and for a login the checks on the user. -/
  | start
  /-- register: `hash_password` and the insert. -/
  | inserting
  /-- register: the commit. -/
  | inserted (user : User)
  /-- register: the rollback. -/
  | clashed
  | registered (user : User)
  /-- login: `_issue` and the flush of a new password hash, and the commit. -/
  | issuing (user : User) (newHash : Option String)
  | issued (user : User)
  | raised (e : Raised)
  deriving DecidableEq, Repr

/-- A call; a ghost are the users that were committed when it arrived. -/
structure Call where
  serial : Nat
  request : Request
  since : List Id
  pc : Pc := .start
  deriving DecidableEq, Repr

/-- The table and the rows that open transactions have inserted; a ghost are all calls so far. -/
structure Shared where
  users : UserTable := .empty
  pending : List User := []
  requests : List Request := []

/-- What the environment decides: a salt, or that the statement raises, a commit perhaps after it
took effect. -/
inductive Choice where
  | go (salt : Nat)
  | abort (committed : Bool)
  deriving DecidableEq, Repr

variable (env : Env)

/-- login: the checks on the user. -/
def checkLogin (salt : Nat) (password : String) : Option User → Pc
  | none => .raised .invalidCredentials
  | some user =>
    match verifyPassword env.hasher salt user.passwordHash password with
    | (false, _) => .raised .invalidCredentials
    | (true, newHash) => if user.isActive then .issuing user newHash else .raised .userInactive

/-- What the checks decide, as `Auth.Service` has it. -/
def Pc.inService (userAgent : Option String) : Pc → Option Auth.Pc
  | .issuing user newHash => some (.loginInsert user newHash userAgent)
  | .raised .invalidCredentials => some (.done .invalidCredentials .nothing)
  | .raised .userInactive => some (.done .userInactive .nothing)
  | _ => none

/-- The settings of `Auth.Service`, with these functions. -/
def Env.config (cfg : Config) (salt : Nat) : Config :=
  { cfg with
    verifyPassword := verifyPassword env.hasher salt
    strip := strip
    lower := env.lower }

/-- The checks are those of `Auth.Service`. -/
theorem checkLogin_service (cfg : Config) (tokens : TokenTable) (t : UserTable) (salt : Nat)
    (email password : String) (userAgent : Option String) :
    (checkLogin env salt password (t.getByEmail (env.normalizeEmail email))).inService userAgent =
      some (Auth.checkLogin (env.config cfg salt) ⟨t.rows, tokens⟩ email password userAgent) := by
  have hfound : Db.getByEmail ⟨t.rows, tokens⟩ (env.normalizeEmail email) =
      t.getByEmail (env.normalizeEmail email) := rfl
  have hemail : (env.config cfg salt).normalizeEmail email = env.normalizeEmail email := rfl
  have hverify : (env.config cfg salt).verifyPassword = verifyPassword env.hasher salt := rfl
  unfold Auth.checkLogin checkLogin
  rw [hemail, hfound, hverify]
  cases t.getByEmail (env.normalizeEmail email) with
  | none => rfl
  | some user =>
    dsimp only
    rcases verifyPassword env.hasher salt user.passwordHash password with ⟨_ | _, newHash⟩
    · rfl
    · dsimp only
      split <;> rfl

/-- The user that `create` inserts. -/
def newUser (serial salt : Nat) (email password : String) : User where
  id := serial
  email := env.normalizeEmail email
  passwordHash := env.hasher.hash salt password

/-- The insert of a user in a transaction; `none` while it waits. -/
def insertUser (w : Shared) (user : User) : Option (Shared × Pc) :=
  if w.pending.any fun u => u.email = user.email then none
  else
    match w.users.insert? user with
    | none => some (w, .clashed)
    | some _ => some ({ w with pending := user :: w.pending }, .inserted user)

def Shared.commitUser (w : Shared) (user : User) : Option Shared :=
  (w.users.insert? user).map fun users => { w with users := users, pending := w.pending.erase user }

/-- The next statement of a call. -/
def stepPc (w : Shared) (serial : Nat) (request : Request) : Pc → Choice → Option (Shared × Pc)
  | .start, .go salt =>
    match request with
    | .register email _ =>
      match w.users.getByEmail (env.normalizeEmail email) with
      | some _ => some (w, .raised .emailAlreadyRegistered)
      | none => some (w, .inserting)
    | .login email password =>
      some (w, checkLogin env salt password (w.users.getByEmail (env.normalizeEmail email)))
  | .inserting, .go salt =>
    match request with
    | .register email password => insertUser w (newUser env serial salt email password)
    | .login _ _ => none
  | .inserted user, .go _ => (w.commitUser user).map fun w => (w, .registered user)
  | .inserted user, .abort committed =>
    if committed then (w.commitUser user).map fun w => (w, .raised .aborted)
    else some ({ w with pending := w.pending.erase user }, .raised .aborted)
  | .clashed, .go _ => some (w, .raised .emailAlreadyRegistered)
  | .issuing user newHash, .go _ =>
    some ({ w with users := w.users.rehash user.id newHash }, .issued user)
  | .issuing user newHash, .abort committed =>
    some (if committed then { w with users := w.users.rehash user.id newHash } else w,
      .raised .aborted)
  | .start, .abort _ => some (w, .raised .aborted)
  | .inserting, .abort _ => some (w, .raised .aborted)
  | .clashed, .abort _ => some (w, .raised .aborted)
  | _, _ => none

/-- The next statement of the call, with its place moved on. -/
def Call.step (w : Shared) (c : Call) (choice : Choice) : Option (Shared × Call) :=
  (stepPc env w c.serial c.request c.pc choice).map fun r => (r.1, { c with pc := r.2 })

/-- The tables and the calls. -/
abbrev Sys := Par Shared Call

/-- What happens next. -/
inductive Label where
  | call (request : Request)
  | act (i : Nat) (choice : Choice)
  | setActive (userId : Id) (isActive : Bool)
  deriving DecidableEq, Repr

/-- A call arrives, a call takes a step, or an administrator comes in between. -/
def Sys.step (s : Sys) : Label → Option Sys
  | .call request =>
    some
      { shared := { s.shared with requests := s.shared.requests ++ [request] }
        parties := s.parties ++
          [{ serial := s.parties.length, request := request
             since := s.shared.users.rows.map User.id }] }
  | .act i choice => s.act (Call.step env) i choice
  | .setActive userId isActive =>
    some { s with shared := { s.shared with users := s.shared.users.setActive userId isActive } }

/-- No users and no calls. -/
def start : Sys := ⟨{}, []⟩

/-! ## 4. What the calls may rely on -/

variable {env : Env} {w w' : Shared} {c c' : Call} {choice : Choice} {user u : User} {k : Id}

namespace UserTable

variable {t t' : UserTable} {email : String}

theorem insert_rows (h : t.insert? user = some t') : t'.rows = t.rows ++ [user] := by
  unfold insert? at h
  split at h
  · obtain rfl := Option.some.inj h
    rfl
  · cases h

theorem insert_none (h : t.insert? user = none) :
    user.id ∈ t.rows.map User.id ∨ user.email ∈ t.rows.map User.email := by
  unfold insert? at h
  split at h
  · cases h
  · rename_i hclash
    by_contra hfree
    exact hclash (not_or.mp hfree)

theorem insert_isSome (h : user.id ∉ t.rows.map User.id ∧ user.email ∉ t.rows.map User.email) :
    ∃ t', t.insert? user = some t' := ⟨_, dif_pos h⟩

theorem getByEmail_some (h : t.getByEmail email = some user) :
    user ∈ t.rows ∧ user.email = email := by
  refine ⟨List.mem_of_find?_eq_some h, ?_⟩
  simpa using List.find?_some h

theorem getByEmail_of_mem (hu : user ∈ t.rows) : t.getByEmail user.email = some user := by
  cases hfind : t.getByEmail user.email with
  | none => simpa using List.find?_eq_none.mp hfind user hu
  | some v =>
    obtain ⟨hv, hemail⟩ := getByEmail_some hfind
    rw [List.inj_on_of_nodup_map t.emails hv hu hemail]

/-- An update changes neither ids nor emails, and keeps the rows it does not select. -/
theorem update_ids (f : User → User) (hf : ∀ u, (f u).id = u.id ∧ (f u).email = u.email) :
    (t.update f hf).rows.map User.id = t.rows.map User.id ∧
      (t.update f hf).rows.map User.email = t.rows.map User.email := by
  constructor
  · simp only [update, List.map_map]
    exact List.map_congr_left fun u _ => (hf u).1
  · simp only [update, List.map_map]
    exact List.map_congr_left fun u _ => (hf u).2

theorem rehash_ids (userId : Id) (newHash : Option String) :
    (t.rehash userId newHash).rows.map User.id = t.rows.map User.id ∧
      (t.rehash userId newHash).rows.map User.email = t.rows.map User.email := by
  cases newHash with
  | none => exact ⟨rfl, rfl⟩
  | some h => exact update_ids _ (withHash_same userId h)

theorem setActive_ids (userId : Id) (isActive : Bool) :
    (t.setActive userId isActive).rows.map User.id = t.rows.map User.id ∧
      (t.setActive userId isActive).rows.map User.email = t.rows.map User.email :=
  update_ids _ (withActive_same userId isActive)

theorem mem_rehash {userId : Id} {newHash : Option String}
    (h : u ∈ (t.rehash userId newHash).rows) :
    ∃ v ∈ t.rows, v.id = u.id ∧ v.email = u.email ∧
      (u.passwordHash = v.passwordHash ∨ (v.id = userId ∧ newHash = some u.passwordHash)) := by
  cases newHash with
  | none => exact ⟨u, h, rfl, rfl, .inl rfl⟩
  | some newHash =>
    obtain ⟨v, hv, rfl⟩ := List.mem_map.mp h
    refine ⟨v, hv, ?_⟩
    unfold User.withHash
    by_cases hid : v.id = userId
    · simp [hid]
    · simp [hid]

theorem mem_setActive {userId : Id} {isActive : Bool} (h : u ∈ (t.setActive userId isActive).rows) :
    ∃ v ∈ t.rows, v.id = u.id ∧ v.email = u.email ∧ v.passwordHash = u.passwordHash := by
  obtain ⟨v, hv, rfl⟩ := List.mem_map.mp h
  refine ⟨v, hv, ?_⟩
  unfold withActive
  split <;> exact ⟨rfl, rfl, rfl⟩

end UserTable

/-- The user comes from a call of `register`, with a hash of that call's password. -/
def Made (env : Env) (requests : List Request) (u : User) : Prop :=
  ∃ email password salt, requests[u.id]? = some (.register email password) ∧
    u.email = env.normalizeEmail email ∧ u.passwordHash = env.hasher.hash salt password

/-- The invariant of the table and the open transactions. -/
structure Shared.Ok (env : Env) (w : Shared) : Prop where
  made : ∀ u ∈ w.users.rows ++ w.pending, Made env w.requests u
  ids : (w.pending.map User.id).Nodup
  emails : (w.pending.map User.email).Nodup
  free : ∀ u ∈ w.pending, u.id ∉ w.users.rows.map User.id ∧ u.email ∉ w.users.rows.map User.email

/-- The email is taken. -/
def Shared.Taken (env : Env) (w : Shared) (email : String) : Prop :=
  env.normalizeEmail email ∈ w.users.rows.map User.email

/-- The user was registered with this email and this password. -/
def Shared.Authentic (env : Env) (w : Shared) (email password : String) (user : User) : Prop :=
  user.id ∈ w.users.rows.map User.id ∧ user.email = env.normalizeEmail email ∧
    ∃ email', w.requests[user.id]? = some (.register email' password) ∧
      env.normalizeEmail email' = env.normalizeEmail email

/-- The user with the id was registered with another email or another password. -/
def Shared.Other (env : Env) (w : Shared) (email password : String) (id : Id) : Prop :=
  ∃ email' password', w.requests[id]? = some (.register email' password') ∧
    ¬ (env.normalizeEmail email' = env.normalizeEmail email ∧ password' = password)

/-- What a call knows at each of its places. -/
def KnowsAt (env : Env) (w : Shared) (serial : Nat) (since : List Id) :
    Request → Pc → Prop
  | _, .start => serial ∉ (w.users.rows ++ w.pending).map User.id
  | .register _ _, .inserting => serial ∉ (w.users.rows ++ w.pending).map User.id
  | .register email _, .inserted user =>
    user ∈ w.pending ∧ user.id = serial ∧ user.email = env.normalizeEmail email
  | .register email _, .clashed => w.Taken env email
  | .register email _, .registered user =>
    user.id = serial ∧ serial ∈ w.users.rows.map User.id ∧ user.email = env.normalizeEmail email
  | .register email _, .raised .emailAlreadyRegistered => w.Taken env email
  | .login email password, .issuing user newHash =>
    w.Authentic env email password user ∧ user.isActive = true ∧
      ∀ h, newHash = some h → ∃ salt, h = env.hasher.hash salt password
  | .login email password, .issued user =>
    w.Authentic env email password user ∧ user.isActive = true
  | .login email password, .raised .invalidCredentials => ∀ id ∈ since,
      w.Other env email password id
  | .login email password, .raised .userInactive => ∃ user, w.Authentic env email password user
  | _, .raised .aborted => True
  | _, _ => False

/-- The assertion of a call. -/
structure Call.Knows (env : Env) (w : Shared) (c : Call) : Prop where
  request : w.requests[c.serial]? = some c.request
  since : ∀ id ∈ c.since, id ∈ w.users.rows.map User.id
  at_pc : KnowsAt env w c.serial c.since c.request c.pc

/-- What a step of the call `k` leaves to the others. -/
structure Rely (k : Option Id) (w w' : Shared) : Prop where
  requests : w.requests <+: w'.requests
  ids : ∀ id ∈ w.users.rows.map User.id, id ∈ w'.users.rows.map User.id
  emails : ∀ email ∈ w.users.rows.map User.email, email ∈ w'.users.rows.map User.email
  pending : ∀ u ∈ w.pending, some u.id ≠ k → u ∈ w'.pending
  back : ∀ id ∈ (w'.users.rows ++ w'.pending).map User.id, some id = k ∨
    id ∈ (w.users.rows ++ w.pending).map User.id

variable {own : Option Id}

theorem Rely.refl (own : Option Id) (w : Shared) : Rely own w w :=
  ⟨List.prefix_rfl, fun _ h => h, fun _ h => h, fun _ h _ => h, fun _ h => .inr h⟩

theorem Rely.request (h : Rely own w w') {i : Nat} {r : Request}
    (hr : w.requests[i]? = some r) : w'.requests[i]? = some r := by
  obtain ⟨rest, hrest⟩ := h.requests
  rw [← hrest, List.getElem?_append_left (List.getElem?_eq_some_iff.mp hr).1]
  exact hr

theorem Rely.taken (h : Rely own w w') {email : String} (ht : w.Taken env email) :
    w'.Taken env email := h.emails _ ht

theorem Rely.authentic (h : Rely own w w') {email password : String}
    (ha : w.Authentic env email password user) : w'.Authentic env email password user := by
  obtain ⟨hid, hemail, email', hrequest, hsame⟩ := ha
  exact ⟨h.ids _ hid, hemail, email', h.request hrequest, hsame⟩

theorem Rely.other (h : Rely own w w') {email password : String} {id : Id}
    (ho : w.Other env email password id) : w'.Other env email password id := by
  obtain ⟨email', password', hrequest, hother⟩ := ho
  exact ⟨email', password', h.request hrequest, hother⟩

/-- **What a call knows survives the steps of the others.** -/
theorem knowsAt_mono {serial : Nat} {since : List Id} {request : Request} {pc : Pc}
    (h : KnowsAt env w serial since request pc) (hrely : Rely own w w') (hne : some serial ≠ own) :
    KnowsAt env w' serial since request pc := by
  have hfree : serial ∉ (w.users.rows ++ w.pending).map User.id →
      serial ∉ (w'.users.rows ++ w'.pending).map User.id := by
    intro hnot hmem
    exact (hrely.back serial hmem).elim hne hnot
  cases request with
  | register email password =>
    cases pc with
    | start => exact hfree h
    | inserting => exact hfree h
    | inserted user => exact ⟨hrely.pending user h.1 (h.2.1 ▸ hne), h.2⟩
    | clashed => exact hrely.taken h
    | registered user => exact ⟨h.1, hrely.ids _ h.2.1, h.2.2⟩
    | raised e =>
      cases e with
      | emailAlreadyRegistered => exact hrely.taken h
      | aborted => trivial
      | _ => exact h.elim
    | _ => exact h.elim
  | login email password =>
    cases pc with
    | start => exact hfree h
    | issuing user newHash => exact ⟨hrely.authentic h.1, h.2⟩
    | issued user => exact ⟨hrely.authentic h.1, h.2⟩
    | raised e =>
      cases e with
      | invalidCredentials => exact fun id hid => hrely.other (h id hid)
      | userInactive =>
        obtain ⟨user, hauth⟩ := h
        exact ⟨user, hrely.authentic hauth⟩
      | aborted => trivial
      | _ => exact h.elim
    | _ => exact h.elim

theorem Call.Knows.mono (h : c.Knows env w) (hrely : Rely own w w') (hne : some c.serial ≠ own) :
    c.Knows env w' where
  request := hrely.request h.request
  since := fun id hid => hrely.ids id (h.since id hid)
  at_pc := knowsAt_mono h.at_pc hrely hne

theorem Made.mono {requests requests' : List Request} (h : Made env requests u)
    (hpre : requests <+: requests') : Made env requests' u := by
  obtain ⟨email, password, salt, hrequest, hrest⟩ := h
  obtain ⟨rest, rfl⟩ := hpre
  refine ⟨email, password, salt, ?_, hrest⟩
  rw [List.getElem?_append_left (List.getElem?_eq_some_iff.mp hrequest).1]
  exact hrequest

/-! ## 5. What each statement does to the users -/

theorem Made.of_hash (h : Made env w.requests u) (hid : user.id = u.id)
    (hemail : user.email = u.email) (hhash : user.passwordHash = u.passwordHash) :
    Made env w.requests user := by
  unfold Made
  rw [hid, hemail, hhash]
  exact h

/-- Two users of an open transaction are one if they have one id. -/
theorem Shared.Ok.mem_erase (hok : w.Ok env) {v : User} :
    v ∈ w.pending.erase user ↔ v ≠ user ∧ v ∈ w.pending :=
  (List.Nodup.of_map _ hok.ids).mem_erase_iff

theorem insertUser_cases {pc : Pc} (hok : w.Ok env)
    (hnew : user.id ∉ (w.users.rows ++ w.pending).map User.id) (hmade : Made env w.requests user)
    (h : insertUser w user = some (w', pc)) :
    (w' = w ∧ pc = .clashed ∧ user.email ∈ w.users.rows.map User.email) ∨
      (w' = { w with pending := user :: w.pending } ∧ pc = .inserted user ∧ w'.Ok env ∧
        Rely (some user.id) w w') := by
  simp only [List.map_append, List.mem_append, not_or] at hnew
  unfold insertUser at h
  split at h
  · cases h
  rename_i hwait
  split at h
  · obtain ⟨rfl, rfl⟩ := Prod.mk.inj (Option.some.inj h)
    rename_i hclash
    exact .inl ⟨rfl, rfl, (UserTable.insert_none hclash).resolve_left hnew.1⟩
  · rename_i t' ht'
    obtain ⟨rfl, rfl⟩ := Prod.mk.inj (Option.some.inj h)
    have hwaits : user.email ∉ w.pending.map User.email := by
      intro hmem
      obtain ⟨v, hv, hemail⟩ := List.mem_map.mp hmem
      exact hwait (List.any_eq_true.mpr ⟨v, hv, by simpa using hemail⟩)
    have hfree : user.email ∉ w.users.rows.map User.email := by
      have hemails := t'.emails
      rw [UserTable.insert_rows ht', List.map_append, List.nodup_append] at hemails
      exact fun hmem => hemails.2.2 _ hmem _ (by simp) rfl
    refine .inr ⟨rfl, rfl, ⟨?_, ?_, ?_, ?_⟩, ⟨List.prefix_rfl, fun _ h => h, fun _ h => h, ?_, ?_⟩⟩
    · intro v hv
      rcases List.mem_append.mp hv with hold | hv
      · exact hok.made v (List.mem_append_left _ hold)
      · rcases List.mem_cons.mp hv with rfl | hold
        · exact hmade
        · exact hok.made v (List.mem_append_right _ hold)
    · exact List.nodup_cons.mpr ⟨hnew.2, hok.ids⟩
    · exact List.nodup_cons.mpr ⟨hwaits, hok.emails⟩
    · intro v hv
      rcases List.mem_cons.mp hv with rfl | hold
      · exact ⟨hnew.1, hfree⟩
      · exact hok.free v hold
    · exact fun v hv _ => List.mem_cons_of_mem _ hv
    · intro id hid
      simp only [List.map_append, List.map_cons, List.mem_append, List.mem_cons] at hid ⊢
      rcases hid with hold | rfl | hold
      · exact .inr (.inl hold)
      · exact .inl rfl
      · exact .inr (.inr hold)

/-- A rollback. -/
theorem rollback_ok (hok : w.Ok env) :
    Shared.Ok env { w with pending := w.pending.erase user } ∧
      Rely (some user.id) w { w with pending := w.pending.erase user } := by
  have hsub : w.pending.erase user ⊆ w.pending := List.erase_subset
  have hall : w.users.rows ++ w.pending.erase user ⊆ w.users.rows ++ w.pending :=
    List.append_subset.mpr ⟨List.subset_append_left _ _,
      fun v hv => List.mem_append_right _ (hsub hv)⟩
  refine ⟨⟨?_, ?_, ?_, ?_⟩, ⟨List.prefix_rfl, fun _ h => h, fun _ h => h, ?_, ?_⟩⟩
  · exact fun v hv => hok.made v (hall hv)
  · exact hok.ids.sublist (List.erase_sublist.map _)
  · exact hok.emails.sublist (List.erase_sublist.map _)
  · exact fun v hv => hok.free v (hsub hv)
  · intro v hv hne
    exact hok.mem_erase.mpr ⟨fun heq => hne (heq ▸ rfl), hv⟩
  · exact fun id hid => .inr (List.map_subset _ hall hid)

theorem commitUser_ok (hok : w.Ok env) (hu : user ∈ w.pending)
    (h : w.commitUser user = some w') :
    w'.Ok env ∧ Rely (some user.id) w w' ∧ w'.requests = w.requests ∧
      w'.users.rows = w.users.rows ++ [user] := by
  obtain ⟨t, ht, rfl⟩ := Option.map_eq_some_iff.mp h
  have hrows := UserTable.insert_rows ht
  have hmem : ∀ {β : Type} (f : User → β) b, b ∈ w.users.rows.map f → b ∈ t.rows.map f := by
    intro β f b hb
    rw [hrows, List.map_append]
    exact List.mem_append_left _ hb
  obtain ⟨hback, hrely⟩ := rollback_ok hok
  refine ⟨⟨?_, hback.ids, hback.emails, ?_⟩,
    ⟨List.prefix_rfl, hmem _, hmem _, hrely.pending, ?_⟩, rfl, hrows⟩
  · intro v hv
    rw [hrows, List.mem_append, List.mem_append, List.mem_singleton] at hv
    rcases hv with (hold | rfl) | hopen
    · exact hok.made v (List.mem_append_left _ hold)
    · exact hok.made v (List.mem_append_right _ hu)
    · exact hback.made v (List.mem_append_right _ hopen)
  · intro v hv
    obtain ⟨hne, hold⟩ := hok.mem_erase.mp hv
    obtain ⟨hid, hemail⟩ := hok.free v hold
    rw [hrows, List.map_append, List.map_append, List.mem_append, List.mem_append]
    refine ⟨not_or.mpr ⟨hid, ?_⟩, not_or.mpr ⟨hemail, ?_⟩⟩
    · exact fun heq => hne (List.inj_on_of_nodup_map hok.ids hold hu (List.mem_singleton.mp heq))
    · exact fun heq => hne (List.inj_on_of_nodup_map hok.emails hold hu (List.mem_singleton.mp heq))
  · intro id hid
    rw [hrows] at hid
    simp only [List.map_append, List.mem_append, List.map_cons, List.map_nil,
      List.mem_singleton] at hid ⊢
    rcases hid with (hold | rfl) | hopen
    · exact .inr (.inl hold)
    · exact .inl rfl
    · exact .inr (.inr (List.map_subset _ List.erase_subset hopen))

/-- An update of the users that changes neither ids nor emails. -/
theorem update_ok (own : Option Id) {users : UserTable} (hok : w.Ok env)
    (hids : users.rows.map User.id = w.users.rows.map User.id)
    (hemails : users.rows.map User.email = w.users.rows.map User.email)
    (hmade : ∀ v ∈ users.rows, Made env w.requests v) :
    Shared.Ok env { w with users := users } ∧ Rely own w { w with users := users } := by
  refine ⟨⟨?_, hok.ids, hok.emails, ?_⟩, ⟨List.prefix_rfl, ?_, ?_, fun v hv _ => hv, ?_⟩⟩
  · intro v hv
    rcases List.mem_append.mp hv with hrow | hopen
    · exact hmade v hrow
    · exact hok.made v (List.mem_append_right _ hopen)
  · intro v hv
    rw [hids, hemails]
    exact hok.free v hv
  · exact fun id hid => hids.symm ▸ hid
  · exact fun email hemail => hemails.symm ▸ hemail
  · intro id hid
    rw [List.map_append, hids, ← List.map_append] at hid
    exact .inr hid

/-- A new hash of the password that the user was registered with. -/
theorem rehash_ok (own : Option Id) {email password : String} {newHash : Option String}
    (hok : w.Ok env) (ha : w.Authentic env email password user)
    (hnew : ∀ h, newHash = some h → ∃ salt, h = env.hasher.hash salt password) :
    Shared.Ok env { w with users := w.users.rehash user.id newHash } ∧
      Rely own w { w with users := w.users.rehash user.id newHash } := by
  obtain ⟨hids, hemails⟩ := UserTable.rehash_ids (t := w.users) user.id newHash
  refine update_ok own hok hids hemails fun v hv => ?_
  obtain ⟨v', hv', hid, hemail, hhash⟩ := UserTable.mem_rehash hv
  have hmade := hok.made v' (List.mem_append_left _ hv')
  rcases hhash with hsame | ⟨hself, hhash⟩
  · exact hmade.of_hash hid.symm hemail.symm hsame
  · -- the row has been given the new hash
    obtain ⟨-, -, email', hrequest, -⟩ := ha
    obtain ⟨email₀, password₀, salt₀, hrequest₀, hemail₀, -⟩ := hmade
    obtain ⟨salt, hsalt⟩ := hnew _ hhash
    have hone := (hself ▸ hrequest₀).symm.trans hrequest
    obtain ⟨rfl, rfl⟩ := Request.register.inj (Option.some.inj hone)
    exact ⟨_, _, salt, hid ▸ hrequest₀, hemail ▸ hemail₀, hsalt⟩

theorem setActive_ok (own : Option Id) (userId : Id) (isActive : Bool) (hok : w.Ok env) :
    Shared.Ok env { w with users := w.users.setActive userId isActive } ∧
      Rely own w { w with users := w.users.setActive userId isActive } := by
  obtain ⟨hids, hemails⟩ := UserTable.setActive_ids (t := w.users) userId isActive
  refine update_ok own hok hids hemails fun v hv => ?_
  obtain ⟨v', hv', hid, hemail, hhash⟩ := UserTable.mem_setActive hv
  exact (hok.made v' (List.mem_append_left _ hv')).of_hash hid.symm hemail.symm hhash.symm

/-- The commit of an open transaction does not clash. -/
theorem commitUser_isSome (hok : w.Ok env) (hu : user ∈ w.pending) :
    ∃ w', w.commitUser user = some w' := by
  obtain ⟨t, ht⟩ := UserTable.insert_isSome (hok.free user hu)
  exact ⟨_, Option.map_eq_some_iff.mpr ⟨t, ht, rfl⟩⟩

/-! ## 6. One step -/

theorem checkLogin_refused {salt : Nat} {password : String}
    (h : env.hasher.verify user.passwordHash password = false) :
    checkLogin env salt password (some user) = .raised .invalidCredentials := by
  simp [checkLogin, verifyPassword, h]

theorem checkLogin_accepted (salt : Nat) {password : String}
    (h : env.hasher.verify user.passwordHash password = true) :
    ∃ newHash, (∀ h, newHash = some h → h = env.hasher.hash salt password) ∧
      checkLogin env salt password (some user) =
        if user.isActive then .issuing user newHash else .raised .userInactive := by
  by_cases hrehash : env.hasher.checkNeedsRehash user.passwordHash
  · refine ⟨some (env.hasher.hash salt password), fun h hh => (Option.some.inj hh).symm, ?_⟩
    simp [checkLogin, verifyPassword, h, hrehash]
  · exact ⟨none, by simp, by simp [checkLogin, verifyPassword, h, hrehash]⟩

/-- **The checks of a login** tell whether the password is the one of the registration. -/
theorem checkLogin_knows {serial salt : Nat} {since : List Id} {email password : String}
    (hcorrect : ∀ salt p q, env.hasher.verify (env.hasher.hash salt p) q = true ↔ p = q)
    (hok : w.Ok env) (hsince : ∀ id ∈ since, id ∈ w.users.rows.map User.id) :
    KnowsAt env w serial since (.login email password)
      (checkLogin env salt password (w.users.getByEmail (env.normalizeEmail email))) := by
  -- the users with another email
  have hother : ∀ v ∈ w.users.rows, v.email ≠ env.normalizeEmail email →
      w.Other env email password v.id := by
    intro v hv hne
    obtain ⟨email', password', -, hrequest, hemail, -⟩ := hok.made v (List.mem_append_left _ hv)
    exact ⟨email', password', hrequest, fun hsame => hne (hemail.trans hsame.1)⟩
  cases hfound : w.users.getByEmail (env.normalizeEmail email) with
  | none =>
    intro id hid
    obtain ⟨v, hv, rfl⟩ := List.mem_map.mp (hsince id hid)
    refine hother v hv fun hemail => ?_
    have hself := UserTable.getByEmail_of_mem hv
    rw [hemail, hfound] at hself
    cases hself
  | some user =>
    obtain ⟨huser, hemail⟩ := UserTable.getByEmail_some hfound
    obtain ⟨email', password', salt', hrequest, hemail', hhash⟩ :=
      hok.made user (List.mem_append_left _ huser)
    by_cases hpassword : password' = password
    · subst hpassword
      have hverify : env.hasher.verify user.passwordHash password' = true :=
        hhash ▸ (hcorrect _ _ _).mpr rfl
      have hauth : w.Authentic env email password' user :=
        ⟨List.mem_map_of_mem huser, hemail, email', hrequest, hemail'.symm.trans hemail⟩
      obtain ⟨newHash, hnew, hcheck⟩ := checkLogin_accepted salt hverify
      rw [hcheck]
      split
      · rename_i hactive
        exact ⟨hauth, hactive, fun h hh => ⟨salt, hnew h hh⟩⟩
      · exact ⟨user, hauth⟩
    · have hverify : env.hasher.verify user.passwordHash password = false := by
        rw [← Bool.not_eq_true, hhash]
        exact fun h => hpassword ((hcorrect _ _ _).mp h)
      rw [checkLogin_refused hverify]
      intro id hid
      obtain ⟨v, hv, rfl⟩ := List.mem_map.mp (hsince id hid)
      by_cases hv' : v.email = env.normalizeEmail email
      · obtain rfl : v = user :=
          List.inj_on_of_nodup_map w.users.emails hv huser (hv'.trans hemail.symm)
        exact ⟨email', password', hrequest, fun hsame => hpassword hsame.2⟩
      · exact hother v hv hv'

/-- What a statement of a call does: it keeps the users in order, the call knows what it needs at
its next place, and the others can rely on what they have found out. -/
structure Moves (env : Env) (w : Shared) (c : Call) (r : Shared × Pc) : Prop where
  ok : r.1.Ok env
  rely : Rely (some c.serial) w r.1
  requests : r.1.requests = w.requests
  knows : KnowsAt env r.1 c.serial c.since c.request r.2

variable {r : Shared × Pc} {email password : String}

theorem Moves.query {pc : Pc} (hok : w.Ok env)
    (hknows : KnowsAt env w c.serial c.since c.request pc) : Moves env w c (w, pc) :=
  ⟨hok, .refl _ _, rfl, hknows⟩

theorem knowsAt_aborted (env : Env) (w : Shared) (c : Call) :
    KnowsAt env w c.serial c.since c.request (.raised .aborted) := by
  cases c.request <;> trivial

/-- The first query. -/
theorem start_moves {salt : Nat}
    (hcorrect : ∀ salt p q, env.hasher.verify (env.hasher.hash salt p) q = true ↔ p = q)
    (hok : w.Ok env) (hc : c.Knows env w) (hpc : c.pc = .start)
    (h : stepPc env w c.serial c.request .start (.go salt) = some r) : Moves env w c r := by
  have hknows := hc.at_pc
  cases hrequest : c.request with
  | register email password =>
    rw [hrequest, hpc] at hknows
    rw [hrequest] at h
    simp only [stepPc] at h
    cases hfound : w.users.getByEmail (env.normalizeEmail email) with
    | none =>
      rw [hfound] at h
      obtain rfl := Option.some.inj h
      exact .query hok (hrequest ▸ hknows)
    | some user =>
      rw [hfound] at h
      obtain rfl := Option.some.inj h
      obtain ⟨huser, hemail⟩ := UserTable.getByEmail_some hfound
      have htaken : w.Taken env email := List.mem_map.mpr ⟨user, huser, hemail⟩
      exact .query hok (hrequest ▸ htaken)
  | login email password =>
    rw [hrequest] at h
    obtain rfl := Option.some.inj h
    exact .query hok (hrequest ▸ checkLogin_knows hcorrect hok hc.since)

/-- register: the insert. -/
theorem inserting_moves {salt : Nat} (hok : w.Ok env) (hc : c.Knows env w) (hpc : c.pc = .inserting)
    (h : stepPc env w c.serial c.request .inserting (.go salt) = some r) : Moves env w c r := by
  have hknows := hc.at_pc
  have hasked := hc.request
  cases hrequest : c.request with
  | login email password =>
    rw [hrequest] at h
    cases h
  | register email password =>
    rw [hrequest, hpc] at hknows
    rw [hrequest] at h hasked
    have hmade : Made env w.requests (newUser env c.serial salt email password) :=
      ⟨email, password, salt, hasked, rfl, rfl⟩
    have hnew : (newUser env c.serial salt email password).id ∉
        (w.users.rows ++ w.pending).map User.id := hknows
    obtain ⟨w', pc⟩ := r
    obtain ⟨rfl, rfl, hclash⟩ | ⟨rfl, rfl, hok', hrely⟩ := insertUser_cases hok hnew hmade h
    · exact .query hok (hrequest ▸ hclash)
    · exact ⟨hok', hrely, rfl, hrequest ▸ ⟨List.mem_cons_self, rfl, rfl⟩⟩

/-- register: the end of the transaction. -/
theorem inserted_moves (hok : w.Ok env) (hc : c.Knows env w) (hpc : c.pc = .inserted user)
    (h : stepPc env w c.serial c.request (.inserted user) choice = some r) :
    Moves env w c r := by
  have hknows := hc.at_pc
  have haborted := fun w => knowsAt_aborted env w c
  cases hrequest : c.request with
  | login email password =>
    rw [hrequest, hpc] at hknows
    exact hknows.elim
  | register email password =>
    rw [hrequest, hpc] at hknows
    obtain ⟨huser, hserial, hemail⟩ := hknows
    cases choice with
    | go salt =>
      obtain ⟨w', hcommit, rfl⟩ := Option.map_eq_some_iff.mp h
      obtain ⟨hok', hrely, hsame, hrows⟩ := commitUser_ok hok huser hcommit
      refine ⟨hok', hserial ▸ hrely, hsame, hrequest ▸ ⟨hserial, ?_, hemail⟩⟩
      rw [hrows, ← hserial]
      exact List.mem_map_of_mem (List.mem_append_right _ (List.mem_singleton_self _))
    | abort committed =>
      cases committed with
      | true =>
        obtain ⟨w', hcommit, rfl⟩ := Option.map_eq_some_iff.mp h
        obtain ⟨hok', hrely, hsame, -⟩ := commitUser_ok hok huser hcommit
        exact ⟨hok', hserial ▸ hrely, hsame, haborted w'⟩
      | false =>
        obtain rfl := Option.some.inj h
        obtain ⟨hok', hrely⟩ := rollback_ok hok
        exact ⟨hok', hserial ▸ hrely, rfl, haborted _⟩

/-- login: the end of the transaction. -/
theorem issuing_moves {newHash : Option String} (hok : w.Ok env) (hc : c.Knows env w)
    (hpc : c.pc = .issuing user newHash)
    (h : stepPc env w c.serial c.request (.issuing user newHash) choice = some r) :
    Moves env w c r := by
  have hknows := hc.at_pc
  have haborted := fun w => knowsAt_aborted env w c
  cases hrequest : c.request with
  | register email password =>
    rw [hrequest, hpc] at hknows
    exact hknows.elim
  | login email password =>
    rw [hrequest, hpc] at hknows
    obtain ⟨hauth, hactive, hnew⟩ := hknows
    obtain ⟨hok', hrely⟩ := rehash_ok (some c.serial) hok hauth hnew
    cases choice with
    | go salt =>
      obtain rfl := Option.some.inj h
      exact ⟨hok', hrely, rfl, hrequest ▸ ⟨hrely.authentic hauth, hactive⟩⟩
    | abort committed =>
      obtain rfl := Option.some.inj h
      cases committed with
      | true => exact ⟨hok', hrely, rfl, haborted _⟩
      | false => exact .query hok (haborted w)

/-- **What a call may do.** -/
theorem stepPc_moves
    (hcorrect : ∀ salt p q, env.hasher.verify (env.hasher.hash salt p) q = true ↔ p = q)
    (hok : w.Ok env) (hc : c.Knows env w)
    (h : stepPc env w c.serial c.request c.pc choice = some r) : Moves env w c r := by
  have haborted := knowsAt_aborted env w c
  cases hpc : c.pc with
  | start =>
    rw [hpc] at h
    cases choice with
    | go salt => exact start_moves hcorrect hok hc hpc h
    | abort =>
      obtain rfl := Option.some.inj h
      exact .query hok haborted
  | inserting =>
    rw [hpc] at h
    cases choice with
    | go salt => exact inserting_moves hok hc hpc h
    | abort =>
      obtain rfl := Option.some.inj h
      exact .query hok haborted
  | inserted user => exact inserted_moves hok hc hpc (hpc ▸ h)
  | clashed =>
    rw [hpc] at h
    cases choice with
    | go salt =>
      obtain rfl := Option.some.inj h
      have hknows := hc.at_pc
      rw [hpc] at hknows
      cases hrequest : c.request with
      | login email password =>
        rw [hrequest] at hknows
        exact hknows.elim
      | register email password =>
        rw [hrequest] at hknows
        exact .query hok (hrequest ▸ hknows)
    | abort =>
      obtain rfl := Option.some.inj h
      exact .query hok haborted
  | issuing user newHash => exact issuing_moves hok hc hpc (hpc ▸ h)
  | registered | issued | raised =>
    rw [hpc] at h
    cases choice <;> cases h

/-! ## 7. Every run -/

/-- The invariant of the system: the number of a call is its place in the list. -/
structure Sys.Good (env : Env) (s : Sys) : Prop where
  holds : s.Holds (Shared.Ok env) (Call.Knows env)
  serials : ∀ (i : Nat) c, s.parties[i]? = some c → c.serial = i
  requests : s.shared.requests.length = s.parties.length
  drawn : ∀ u ∈ s.shared.users.rows ++ s.shared.pending, u.id < s.parties.length

theorem start_good : Sys.Good env start where
  holds := Par.holds_nil ⟨by simp [UserTable.empty], List.nodup_nil, List.nodup_nil, by simp⟩
  serials := by simp [start]
  requests := rfl
  drawn := by simp [start, UserTable.empty]

/-- **Every step keeps the invariant.** -/
theorem step_good {s s' : Sys} {l : Label}
    (hcorrect : ∀ salt p q, env.hasher.verify (env.hasher.hash salt p) q = true ↔ p = q)
    (hs : s.Good env) (hstep : s.step env l = some s') : s'.Good env := by
  cases l with
  | call request =>
    obtain rfl := Option.some.inj hstep
    have hpre : s.shared.requests <+: s.shared.requests ++ [request] := List.prefix_append _ _
    have hrely : Rely none s.shared
        { s.shared with requests := s.shared.requests ++ [request] } :=
      ⟨hpre, fun _ h => h, fun _ h => h, fun _ h _ => h, fun _ h => .inr h⟩
    have hok := hs.holds.shared
    have hcalls := hs.holds.env (w := { s.shared with requests := s.shared.requests ++ [request] })
      ⟨fun u hu => (hok.made u hu).mono hpre, hok.ids, hok.emails, hok.free⟩
      fun r hr => hr.mono hrely (by simp)
    refine ⟨hcalls.spawn ⟨?_, fun _ h => h, ?_⟩, ?_, ?_, ?_⟩
    · simp [← hs.requests]
    · have hnew : s.parties.length ∉
          (s.shared.users.rows ++ s.shared.pending).map User.id := by
        intro hmem
        obtain ⟨u, hu, hid⟩ := List.mem_map.mp hmem
        exact Nat.lt_irrefl _ (hid ▸ hs.drawn u hu)
      cases request <;> exact hnew
    · intro i c hi
      rcases concat_cases hi with ⟨rfl, rfl⟩ | hold
      · rfl
      · exact hs.serials i c hold
    · simp [hs.requests]
    · intro u hu
      rw [List.length_append]
      exact Nat.lt_add_right _ (hs.drawn u hu)
  | act i choice =>
    obtain ⟨c, w, c', hc, hlocal, rfl⟩ := Par.act_eq_some.mp hstep
    obtain ⟨⟨w₁, pc⟩, hpc, heq⟩ := Option.map_eq_some_iff.mp hlocal
    obtain ⟨rfl, rfl⟩ := Prod.mk.inj heq
    have hknows := hs.holds.parties c (List.mem_of_getElem? hc)
    obtain ⟨hok, hrely, hsame, hat⟩ := stepPc_moves hcorrect hs.holds.shared hknows hpc
    have hserial := hs.serials i c hc
    refine ⟨hs.holds.set_of_ne hok ⟨hrely.request hknows.request,
      fun id hid => hrely.ids id (hknows.since id hid), hat⟩ ?_, ?_, ?_, ?_⟩
    · intro j r hne hj hr
      have hr' := hs.serials j r hj
      exact hr.mono hrely fun heq => hne (by rw [← hr', Option.some.inj heq, hserial])
    · intro j r hj
      rcases set_cases hj with ⟨rfl, rfl⟩ | ⟨-, hold⟩
      · exact hserial
      · exact hs.serials j r hold
    · rw [hsame, List.length_set, hs.requests]
    · intro u hu
      rw [List.length_set]
      rcases hrely.back u.id (List.mem_map_of_mem hu) with hself | hold
      · rw [Option.some.inj hself, hserial]
        exact (List.getElem?_eq_some_iff.mp hc).1
      · obtain ⟨v, hv, hid⟩ := List.mem_map.mp hold
        exact hid ▸ hs.drawn v hv
  | setActive userId isActive =>
    obtain rfl := Option.some.inj hstep
    obtain ⟨hok, hrely⟩ := setActive_ok none userId isActive hs.holds.shared
    refine ⟨hs.holds.env hok fun r hr => hr.mono hrely (by simp), hs.serials, hs.requests, ?_⟩
    intro u hu
    obtain hself | hold := hrely.back u.id (List.mem_map_of_mem hu)
    · cases hself
    · obtain ⟨v, hv, hid⟩ := List.mem_map.mp hold
      exact hid ▸ hs.drawn v hv

theorem run_good {s : Sys} {ls : List Label}
    (hcorrect : ∀ salt p q, env.hasher.verify (env.hasher.hash salt p) q = true ↔ p = q)
    (hrun : run (Sys.step env) start ls = some s) : s.Good env :=
  run_invariant_of_step (fun _ _ _ hs hstep => step_good hcorrect hs hstep) start_good hrun

/-- What the answer of a call means. -/
def Call.Answered (env : Env) (w : Shared) (c : Call) : Prop :=
  match c.request, c.pc with
  | .register email password, .registered user =>
    -- this very call has made the account
    user.id = c.serial ∧ w.Authentic env email password user
  | .register email _, .raised .emailAlreadyRegistered => w.Taken env email
  | .login email password, .issued user =>
    w.Authentic env email password user ∧ user.isActive = true
  | .login email password, .raised .userInactive => ∃ user, w.Authentic env email password user
  | .login email password, .raised .invalidCredentials =>
    ∀ id ∈ c.since, w.Other env email password id
  | _, _ => True

theorem Call.Knows.answered (h : c.Knows env w) : c.Answered env w := by
  obtain ⟨serial, request, since, pc⟩ := c
  obtain ⟨hrequest, -, hat⟩ := h
  cases request with
  | register email password =>
    cases pc with
    | registered user =>
      obtain ⟨rfl, hid, hemail⟩ := hat
      exact ⟨rfl, hid, hemail, email, hrequest, rfl⟩
    | raised e => cases e <;> first | exact hat | trivial
    | _ => trivial
  | login email password =>
    cases pc with
    | issued user => exact hat
    | raised e => cases e <;> first | exact hat | trivial
    | _ => trivial

/-- The account that a call has made is the row with its number. -/
theorem Sys.Good.row {s : Sys} (hs : s.Good env) {i : Nat} {email password : String}
    (hc : s.parties[i]? = some c) (hrequest : c.request = .register email password)
    (hpc : c.pc = .registered user) :
    ∃ v ∈ s.shared.users.rows, v.id = i ∧ v.email = env.normalizeEmail email := by
  obtain ⟨hasked, -, hat⟩ := hs.holds.parties c (List.mem_of_getElem? hc)
  rw [hrequest, hpc, hs.serials i c hc] at hat
  rw [hrequest, hs.serials i c hc] at hasked
  obtain ⟨-, hmem, -⟩ := hat
  obtain ⟨v, hv, rfl⟩ := List.mem_map.mp hmem
  obtain ⟨email', password', -, hmade, hemail, -⟩ :=
    hs.holds.shared.made v (List.mem_append_left _ hv)
  obtain ⟨rfl, rfl⟩ := Request.register.inj (Option.some.inj (hmade.symm.trans hasked))
  exact ⟨v, hv, rfl, hemail⟩

/-- **Accounts.**  In any run of any calls, at most one call registers an email; a commit that
follows an insert does not clash; and every answer of a call says what it should of the accounts:
an email is refused only if it has an account, and a login comes in, or learns that the account is
inactive, only with the password it was registered with, and is turned away only if no account that
was there when it came has this email and this password. -/
theorem accounts {s : Sys} {ls : List Label}
    (hcorrect : ∀ salt p q, env.hasher.verify (env.hasher.hash salt p) q = true ↔ p = q)
    (hrun : run (Sys.step env) start ls = some s) :
    (∀ (i j : Nat) c c' email email' password password' user user',
      s.parties[i]? = some c → s.parties[j]? = some c' →
      c.request = .register email password → c'.request = .register email' password' →
      c.pc = .registered user → c'.pc = .registered user' →
      env.normalizeEmail email = env.normalizeEmail email' → i = j) ∧
    (∀ c ∈ s.parties, ∀ user, c.pc = .inserted user → (s.shared.commitUser user).isSome) ∧
    ∀ c ∈ s.parties, c.Answered env s.shared := by
  have hs := run_good hcorrect hrun
  refine ⟨?_, ?_, fun c hc => (hs.holds.parties c hc).answered⟩
  · intro i j c c' email email' password password' user user' hi hj hc hc' hpc hpc' hsame
    obtain ⟨v, hv, rfl, hemail⟩ := hs.row hi hc hpc
    obtain ⟨v', hv', rfl, hemail'⟩ := hs.row hj hc' hpc'
    exact congrArg User.id (List.inj_on_of_nodup_map s.shared.users.emails hv hv'
      (by rw [hemail, hemail', hsame]))
  · intro c hc user hpc
    obtain ⟨-, -, hat⟩ := hs.holds.parties c hc
    rw [hpc] at hat
    have hopen : user ∈ s.shared.pending := by
      cases hrequest : c.request with
      | register email password =>
        rw [hrequest] at hat
        exact hat.1
      | login email password =>
        rw [hrequest] at hat
        exact hat.elim
    obtain ⟨w', hcommit⟩ := commitUser_isSome hs.holds.shared hopen
    exact hcommit ▸ rfl

/-! ### Two people register one email -/

/-- A hash is a digit of salt and the password; salt 0 is out of date. -/
def sampleEnv : Env where
  hasher :=
    { hash := fun salt password => String.ofList (Nat.digitChar (salt % 10) :: password.toList)
      verify := fun passwordHash password => passwordHash.toList.tail = password.toList
      checkNeedsRehash := fun passwordHash => passwordHash.toList.head? = some '0' }
  lower := fun s => String.ofList (s.toList.map Char.toLower)

theorem sampleEnv_correct (salt : Nat) (p q : String) :
    sampleEnv.hasher.verify (sampleEnv.hasher.hash salt p) q = true ↔ p = q := by
  simp [sampleEnv, String.toList_inj]

/-- Both find that the email is free; one insert waits for the other and clashes.  The first
password comes in and is hashed anew, the second one is turned away. -/
def bothRun : List Label :=
  [.call (.register "a@b.c" "one"), .call (.register " A@b.c" "two"), .act 0 (.go 0),
    .act 1 (.go 0), .act 0 (.go 0), .act 0 (.go 0), .act 1 (.go 0), .act 1 (.go 0),
    .call (.login "A@B.C" "one"), .call (.login "a@b.c" "two"), .act 2 (.go 7), .act 3 (.go 0),
    .act 2 (.go 0)]

/-- How a call has ended. -/
def Pc.answer? : Pc → Option (Except Raised Id)
  | .registered user => some (.ok user.id)
  | .issued user => some (.ok user.id)
  | .raised e => some (.error e)
  | _ => none

theorem accounts_both :
    ∃ s, run (Sys.step sampleEnv) start bothRun = some s ∧
      s.parties.map (fun c => c.pc.answer?) =
        [some (.ok 0), some (.error .emailAlreadyRegistered), some (.ok 0),
          some (.error .invalidCredentials)] ∧
      s.shared.users.rows.map User.passwordHash = ["7one"] ∧
      ∀ c ∈ s.parties, c.Answered sampleEnv s.shared := by
  have hend : (run (Sys.step sampleEnv) start bothRun).map (fun s =>
      (s.parties.map (fun c => c.pc.answer?), s.shared.users.rows.map User.passwordHash)) =
        some ([some (.ok 0), some (.error .emailAlreadyRegistered), some (.ok 0),
          some (.error .invalidCredentials)], ["7one"]) := by decide
  obtain ⟨s, hs, heq⟩ := Option.map_eq_some_iff.mp hend
  obtain ⟨hanswers, hhashes⟩ := Prod.mk.inj heq
  exact ⟨s, hs, hanswers, hhashes, (accounts sampleEnv_correct hs).2.2⟩

end AtlasKnowledge.Auth.Accounts
