/-
# Calls one after the other

`login`, `refresh` and `logout` with nothing in between: the machine of `Service.lean` driven from
its first statement to its answer, at one reading of the clock.  `Server.step` is the history of
such calls, with the clock never going back; between two of them the users table may change as it
likes, as registration and an administrator change it.

* `call_run`: a call is a run of the system in which no other call moves;
* `refresh_cases`, `call_touches`: what a refresh answers, and what a call does to
  `refresh_tokens`.
-/
import AtlasKnowledge.Auth.Service

namespace AtlasKnowledge.Auth

open Interleave Transition

/-! ## 1. A call -/

/-- The next statement of the call, as a step of a machine without a choice. -/
def nextStatement (cfg : Config) (serial : Nat) (now : Time) (p : Db × Pc) : Option (Db × Pc) :=
  goPc cfg p.1 serial now p.2

/-- No call has more statements. -/
def statements : Nat := 6

def Pc.answer : Pc → Answer
  | .done answer _ => answer
  | _ => .aborted

/-- What the call leaves in the tables, and what it answers. -/
def call (cfg : Config) (db : Db) (serial : Nat) (now : Time) (request : Request) : Db × Answer :=
  let p := drive (nextStatement cfg serial now) statements (db, request.start)
  (p.1, p.2.answer)

/-! ## 2. The history -/

/-- A call of the history, with its answer. -/
structure Entry where
  request : Request
  now : Time
  answer : Answer
  deriving DecidableEq, Repr

/-- The tables, and the calls so far, the last one first. -/
structure Server where
  db : Db
  log : List Entry

/-- What comes next in the history. -/
inductive Event where
  | call (request : Request) (now : Time)
  | users (users : List User)

/-- A call is done at once, and the clock does not go back. -/
def Server.step (cfg : Config) (s : Server) : Event → Option Server
  | .call request now =>
    if ∀ e ∈ s.log, e.now ≤ now then
      some
        { db := (Auth.call cfg s.db s.log.length now request).1
          log := ⟨request, now, (Auth.call cfg s.db s.log.length now request).2⟩ :: s.log }
    else none
  | .users users => some { s with db := { s.db with users := users } }

/-- Before anybody has logged in. -/
def Server.start (users : List User) : Server := ⟨⟨users, .empty⟩, []⟩

/-- The answer of the last call. -/
def Server.answer? (s : Server) : Option Answer := s.log.head?.map Entry.answer

/-! ## 3. A call is a run -/

variable {cfg : Config} {db db' : Db} {serial : Nat} {now : Time}

/-- The statements of the call at `i`, as steps of the system. -/
theorem drive_run (n : Nat) {s : Sys} {i : Nat} {c : Call} (hc : s.parties[i]? = some c) :
    ∃ ls s', run (Sys.step cfg) s ls = some s' ∧
      (∀ j, j ≠ i → s'.parties[j]? = s.parties[j]?) ∧
      s'.shared = (drive (nextStatement cfg c.serial now) n (s.shared, c.pc)).1 ∧
      s'.parties[i]? = some { c with
        pc := (drive (nextStatement cfg c.serial now) n (s.shared, c.pc)).2 } := by
  induction n generalizing s c with
  | zero => exact ⟨[], s, rfl, fun _ _ => rfl, rfl, hc⟩
  | succ n ih =>
    cases hnext : nextStatement cfg c.serial now (s.shared, c.pc) with
    | none =>
      rw [drive_of_none hnext]
      exact ⟨[], s, rfl, fun _ _ => rfl, rfl, hc⟩
    | some p =>
      obtain ⟨db, pc⟩ := p
      rw [drive_of_some hnext]
      obtain ⟨ls, s', hrun, hothers, hspec⟩ := ih (s := ⟨db, s.parties.set i { c with pc := pc }⟩)
        (c := { c with pc := pc }) (set_self hc)
      refine ⟨.act i (.go now) :: ls, s', ?_, ?_, hspec⟩
      · rw [run_cons, @step_act _ _ _ _ _ _ (.go now) hc hnext]
        exact hrun
      · intro j hj
        rw [hothers j hj]
        exact set_other hj

/-- **A call with nothing in between is a run of the system** in which no other call moves. -/
theorem call_run (cfg : Config) (s : Sys) (now : Time) (request : Request) :
    ∃ ls s', run (Sys.step cfg) s (.call request :: ls) = some s' ∧
      (∀ j, j < s.parties.length → s'.parties[j]? = s.parties[j]?) ∧
      s'.shared = (call cfg s.shared s.parties.length now request).1 := by
  obtain ⟨ls, s', hrun, hothers, hshared, -⟩ := @drive_run cfg now statements
    (s.spawn { serial := s.parties.length, pc := request.start }) s.parties.length
    { serial := s.parties.length, pc := request.start } (by simp)
  refine ⟨ls, s', hrun, ?_, hshared⟩
  intro j hj
  rw [hothers j (Nat.ne_of_lt hj), Par.spawn_parties, List.getElem?_append_left hj]

/-! ## 4. What a call does -/

/-- What a refresh makes of the tables, and what it answers. -/
inductive Refreshed (cfg : Config) (db : Db) (serial : Nat) (now : Time) (token : Token) :
    Db → Answer → Prop where
  | unknown (hrow : db.getByHash (.sha256 token) = none) :
      Refreshed cfg db serial now token db .invalidRefreshToken
  | expired {row : TokenRow} (hrow : db.getByHash (.sha256 token) = some row)
      (expired : row.expiresAt < now) : Refreshed cfg db serial now token db .invalidRefreshToken
  | raced {row : TokenRow} {at_ : Time} (hrow : db.getByHash (.sha256 token) = some row)
      (unexpired : ¬ row.expiresAt < now) (revoked : row.revokedAt = some at_)
      (grace : row.replacedBy.isSome ∧ now - at_ ≤ rotationGrace) :
      Refreshed cfg db serial now token db .invalidRefreshToken
  | stolen {row : TokenRow} {at_ : Time} (hrow : db.getByHash (.sha256 token) = some row)
      (unexpired : ¬ row.expiresAt < now) (revoked : row.revokedAt = some at_)
      (late : ¬ (row.replacedBy.isSome ∧ now - at_ ≤ rotationGrace)) :
      Refreshed cfg db serial now token
        { db with tokens := db.tokens.revoke (db.liveIds row.familyId) now } .invalidRefreshToken
  | inactive {row : TokenRow} (hrow : db.getByHash (.sha256 token) = some row)
      (unexpired : ¬ row.expiresAt < now) (live : row.revokedAt = none)
      (inactive : db.active row.userId = false) :
      Refreshed cfg db serial now token db .invalidRefreshToken
  | exchanged {row : TokenRow} {user : User} {tokens : TokenTable} {userAgent : Option String}
      (hrow : db.getByHash (.sha256 token) = some row)
      (unexpired : ¬ row.expiresAt < now) (live : row.revokedAt = none)
      (active : db.active row.userId = true)
      (insert : db.tokens.insert? (newRow cfg serial user.id row.familyId now userAgent) =
        some tokens) :
      Refreshed cfg db serial now token { db with tokens := tokens.replace row.id now serial }
        (.issued (issued cfg serial user))
  | clash {row : TokenRow} {user : User} {userAgent : Option String}
      (hrow : db.getByHash (.sha256 token) = some row) (unexpired : ¬ row.expiresAt < now)
      (live : row.revokedAt = none) (active : db.active row.userId = true)
      (insert : db.tokens.insert? (newRow cfg serial user.id row.familyId now userAgent) = none) :
      Refreshed cfg db serial now token db .aborted

/-- A call goes on with its next statement. -/
theorem drive_go {n : Nat} {pc pc' : Pc} (h : goPc cfg db serial now pc = some (db', pc')) :
    drive (nextStatement cfg serial now) (n + 1) (db, pc) =
      drive (nextStatement cfg serial now) n (db', pc') := drive_of_some h n

@[simp] theorem drive_done (n : Nat) (db : Db) (answer : Answer) (committed : Committed) :
    drive (nextStatement cfg serial now) n (db, .done answer committed) =
      (db, .done answer committed) := drive_of_none rfl n

/-- The statements of `revoke_family`. -/
theorem drive_revoking (n : Nat) (familyId : Id) (answer : Answer) :
    drive (nextStatement cfg serial now) (n + 2) (db, .revoking now familyId answer) =
      ({ db with tokens := db.tokens.revoke (db.liveIds familyId) now },
        .done answer (.revoked familyId)) := by
  rw [drive_go rfl, drive_go rfl, drive_done]

/-- **What a refresh does.** -/
theorem refresh_cases (cfg : Config) (db : Db) (serial : Nat) (now : Time) (token : Token)
    (userAgent : Option String) :
    Refreshed cfg db serial now token (call cfg db serial now (.refresh token userAgent)).1
      (call cfg db serial now (.refresh token userAgent)).2 := by
  unfold call statements Request.start
  rw [drive_go rfl]
  cases hrow : db.getByHash (.sha256 token) with
  | none =>
    simp only [drive_done]
    exact .unknown hrow
  | some row =>
    by_cases hexpired : row.expiresAt < now
    · simp only [checkRow, hexpired, if_true, drive_done]
      exact .expired hrow hexpired
    cases hrevoked : row.revokedAt with
    | some at_ =>
      by_cases hgrace : row.replacedBy.isSome ∧ now - at_ ≤ rotationGrace
      · simp only [checkRow, hexpired, if_false, hrevoked, hgrace, and_self, if_true, drive_done]
        exact .raced hrow hexpired hrevoked hgrace
      · simp only [checkRow, hexpired, if_false, hrevoked, hgrace, drive_revoking]
        exact .stolen hrow hexpired hrevoked hgrace
    | none =>
      simp only [checkRow, hexpired, if_false, hrevoked]
      rw [drive_go rfl]
      cases huser : db.getById row.userId with
      | none =>
        simp only [checkUser, huser, drive_done]
        exact .inactive hrow hexpired hrevoked (by simp [Db.active, huser])
      | some user =>
        cases hactive : user.isActive with
        | false =>
          simp only [checkUser, huser, hactive, Bool.false_eq_true, if_false, drive_done]
          exact .inactive hrow hexpired hrevoked (by simp [Db.active, huser, hactive])
        | true =>
          have hactive' : db.active row.userId = true := by simp [Db.active, huser, hactive]
          simp only [checkUser, huser, hactive, if_true]
          rw [drive_go rfl, drive_go rfl, drive_go rfl]
          cases hinsert : db.tokens.insert?
              (newRow cfg serial user.id row.familyId now userAgent) with
          | none =>
            simp only [drive_done]
            exact .clash hrow hexpired hrevoked hactive' hinsert
          | some tokens =>
            simp only [drive_done]
            exact .exchanged hrow hexpired hrevoked hactive' hinsert

/-- The family a call is about: the presented token's, or, for a login, the one it opens. -/
def Request.family (db : Db) (serial : Nat) : Request → Option Id
  | .login _ _ _ => some serial
  | .refresh token _ => (db.getByHash (.sha256 token)).map TokenRow.familyId
  | .logout token =>
    (token.bind fun t => db.getByHash (.sha256 t)).map TokenRow.familyId

/-- What a call makes of `refresh_tokens`: nothing, a new row that is the first of its family or
takes the place of a live one, or a revoked family. -/
inductive Touches (db : Db) (serial : Nat) (now : Time) (family : Option Id) :
    TokenTable → Prop where
  | keep : Touches db serial now family db.tokens
  | opens {new : TokenRow} {t : TokenTable} (insert : db.tokens.insert? new = some t)
      (id : new.id = serial) (tokenHash : new.tokenHash = .sha256 serial)
      (joins : new.familyId = serial) (live : new.revokedAt = none)
      (about : family = some serial) : Touches db serial now family t
  | exchanges {row new : TokenRow} {t : TokenTable} (mem : row ∈ db.tokens.rows)
      (wasLive : row.revokedAt = none) (insert : db.tokens.insert? new = some t)
      (id : new.id = serial) (tokenHash : new.tokenHash = .sha256 serial)
      (joins : new.familyId = row.familyId) (live : new.revokedAt = none)
      (about : family = some row.familyId) :
      Touches db serial now family (t.replace row.id now serial)
  | revokes {row : TokenRow} (mem : row ∈ db.tokens.rows) (about : family = some row.familyId) :
      Touches db serial now family (db.tokens.revoke (db.liveIds row.familyId) now)

theorem Refreshed.touches {token : Token} {userAgent : Option String} {answer : Answer}
    (h : Refreshed cfg db serial now token db' answer) :
    Touches db serial now (Request.family db serial (.refresh token userAgent)) db'.tokens := by
  have habout : ∀ {row : TokenRow}, db.getByHash (.sha256 token) = some row →
      Request.family db serial (.refresh token userAgent) = some row.familyId :=
    fun hrow => congrArg (Option.map TokenRow.familyId) hrow
  cases h with
  | stolen hrow unexpired revoked late => exact .revokes (mem_of_getByHash hrow).1 (habout hrow)
  | exchanged hrow unexpired live active insert =>
    exact .exchanges (mem_of_getByHash hrow).1 live insert rfl rfl rfl rfl (habout hrow)
  | _ => exact .keep

theorem login_touches (cfg : Config) (db : Db) (serial : Nat) (now : Time) (email password : String)
    (userAgent : Option String) :
    Touches db serial now (some serial)
      (call cfg db serial now (.login email password userAgent)).1.tokens := by
  unfold call statements Request.start
  rw [drive_go rfl]
  unfold checkLogin
  split
  · simp only [drive_done]
    exact .keep
  · split
    · simp only [drive_done]
      exact .keep
    · split
      · rename_i user _ _ newHash _ _
        rw [drive_go rfl, drive_go rfl]
        cases hinsert : db.tokens.insert? (newRow cfg serial user.id serial now userAgent) with
        | none =>
          simp only [drive_done]
          exact .keep
        | some t =>
          simp only [drive_done]
          exact .opens hinsert rfl rfl rfl rfl rfl
      · simp only [drive_done]
        exact .keep

theorem logout_touches (cfg : Config) (db : Db) (serial : Nat) (now : Time) (token : Option Token) :
    Touches db serial now (Request.family db serial (.logout token))
      (call cfg db serial now (.logout token)).1.tokens := by
  unfold call statements Request.start
  rw [drive_go rfl]
  cases hrow : token.bind fun t => db.getByHash (.sha256 t) with
  | none =>
    rw [drive_go rfl, drive_done]
    exact .keep
  | some row =>
    simp only [drive_revoking]
    obtain ⟨t, -, hfound⟩ := Option.bind_eq_some_iff.mp hrow
    exact .revokes (mem_of_getByHash hfound).1 (congrArg (Option.map TokenRow.familyId) hrow)

/-- **What a call does to `refresh_tokens`.** -/
theorem call_touches (cfg : Config) (db : Db) (serial : Nat) (now : Time) (request : Request) :
    Touches db serial now (request.family db serial) (call cfg db serial now request).1.tokens := by
  cases request with
  | login email password userAgent => exact login_touches cfg db serial now email password userAgent
  | refresh token userAgent => exact (refresh_cases cfg db serial now token userAgent).touches
  | logout token => exact logout_touches cfg db serial now token

end AtlasKnowledge.Auth
