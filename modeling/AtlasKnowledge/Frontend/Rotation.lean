/-
# A browser never replays its own token

The refresh cookie is rotated: every refresh replaces the token, and a token that is presented
again after it was replaced is taken for a stolen one, which revokes the family.  A browser must
therefore never present a replaced token, though its jar holds one from the moment the server has
answered until the response arrives.  It is the single refresh in flight that keeps it from doing
so.

* `session_survives`: as long as no reply to a refresh is lost, no family of this browser is revoked
  but by its own logout, and the token in the jar is a live one whenever no refresh is in flight;
* `lost_reply_revokes`: one lost reply, and the next refresh revokes the family.
-/
import AtlasKnowledge.Frontend.Session
import AtlasKnowledge.Auth.Replay

namespace AtlasKnowledge.Frontend.Session

open Interleave Transition
open Auth (Token Time Config Server IssuedTokens Answer TokenRow TokenTable Dead)

/-! ## 1. The server's answers -/

section Server

open Auth

variable {cfg : Config} {db : Db} {n : Nat} {now : Time} {t t' : TokenTable}
  {mine loggedOut : List Id} {k : Token}

/-- The token's row is there, of a family of this browser, and live, unless the browser has logged
out of that family. -/
def Alive (t : TokenTable) (mine loggedOut : List Id) (k : Token) : Prop :=
  ∃ row ∈ t.rows, row.id = k ∧ row.familyId ∈ mine ∧
    (row.revokedAt = none ∨ row.familyId ∈ loggedOut)

/-- Every family of this browser has a live token, unless it has logged out of it. -/
def Lives (t : TokenTable) (mine loggedOut : List Id) : Prop :=
  ∀ f ∈ mine, f ∈ loggedOut ∨ ∃ row ∈ t.rows, row.familyId = f ∧ row.revokedAt = none

/-- What the server makes of a request of this browser. -/
inductive Served (db : Db) (n : Nat) (now : Time) : Auth.Request → TokenTable → Answer → Prop where
  | quiet {request : Auth.Request} {answer : Answer} (h : ∀ tokens, answer ≠ .issued tokens) :
      Served db n now request db.tokens answer
  | opens {email password : String} {userAgent : Option String} {new : TokenRow}
      {t : TokenTable} {tokens : IssuedTokens} (insert : db.tokens.insert? new = some t)
      (id : new.id = n) (joins : new.familyId = n) (live : new.revokedAt = none)
      (token : tokens.refreshToken = n) :
      Served db n now (.login email password userAgent) t (.issued tokens)
  | exchanges {k : Token} {userAgent : Option String} {row new : TokenRow} {t : TokenTable}
      {tokens : IssuedTokens} (mem : row ∈ db.tokens.rows) (hash : row.tokenHash = .sha256 k)
      (insert : db.tokens.insert? new = some t) (id : new.id = n)
      (joins : new.familyId = row.familyId) (live : new.revokedAt = none)
      (token : tokens.refreshToken = n) :
      Served db n now (.refresh k userAgent) (t.replace row.id now n) (.issued tokens)
  | replayed {k : Token} {userAgent : Option String} {row : TokenRow} {answer : Answer}
      (mem : row ∈ db.tokens.rows) (hash : row.tokenHash = .sha256 k)
      (revoked : row.revokedAt ≠ none) (h : ∀ tokens, answer ≠ .issued tokens) :
      Served db n now (.refresh k userAgent)
        (db.tokens.revoke (db.liveIds row.familyId) now) answer
  | ends {k : Option Token} {row : TokenRow} {answer : Answer} (mem : row ∈ db.tokens.rows)
      (about : (Auth.Request.logout k).family db 0 = some row.familyId)
      (h : ∀ tokens, answer ≠ .issued tokens) :
      Served db n now (.logout k) (db.tokens.revoke (db.liveIds row.familyId) now) answer

theorem login_served (cfg : Config) (db : Db) (n : Nat) (now : Time) (email password : String)
    (userAgent : Option String) :
    Served db n now (.login email password userAgent)
      (call cfg db n now (.login email password userAgent)).1.tokens
      (call cfg db n now (.login email password userAgent)).2 := by
  unfold call statements Request.start
  rw [drive_go rfl]
  unfold checkLogin
  split
  · simp only [drive_done]
    exact .quiet (by simp [Pc.answer])
  · split
    · simp only [drive_done]
      exact .quiet (by simp [Pc.answer])
    · split
      · rename_i user _ _ newHash _ _
        rw [drive_go rfl, drive_go rfl]
        cases hinsert : db.tokens.insert? (newRow cfg n user.id n now userAgent) with
        | none =>
          simp only [drive_done]
          exact .quiet (by simp [Pc.answer])
        | some t =>
          simp only [drive_done]
          exact .opens hinsert rfl rfl rfl rfl
      · simp only [drive_done]
        exact .quiet (by simp [Pc.answer])

theorem logout_served (cfg : Config) (db : Db) (n : Nat) (now : Time) (k : Option Token) :
    Served db n now (.logout k) (call cfg db n now (.logout k)).1.tokens
      (call cfg db n now (.logout k)).2 := by
  unfold call statements Request.start
  rw [drive_go rfl]
  cases hrow : k.bind fun t => db.getByHash (.sha256 t) with
  | none =>
    rw [drive_go rfl, drive_done]
    exact .quiet (by simp [Pc.answer])
  | some row =>
    simp only [drive_revoking]
    obtain ⟨t, -, hfound⟩ := Option.bind_eq_some_iff.mp hrow
    exact .ends (mem_of_getByHash hfound).1 (congrArg (Option.map TokenRow.familyId) hrow)
      (by simp [Pc.answer])

theorem refresh_served (cfg : Config) (db : Db) (n : Nat) (now : Time) (k : Token)
    (userAgent : Option String) :
    Served db n now (.refresh k userAgent) (call cfg db n now (.refresh k userAgent)).1.tokens
      (call cfg db n now (.refresh k userAgent)).2 := by
  have hcases := refresh_cases cfg db n now k userAgent
  generalize call cfg db n now (.refresh k userAgent) = p at hcases
  obtain ⟨db', answer⟩ := p
  cases hcases with
  | stolen hrow unexpired revoked late =>
    obtain ⟨hmem, hhash⟩ := mem_of_getByHash hrow
    exact .replayed hmem hhash (by simp [revoked]) (by simp)
  | exchanged hrow unexpired live active insert =>
    obtain ⟨hmem, hhash⟩ := mem_of_getByHash hrow
    exact .exchanges hmem hhash insert rfl rfl rfl rfl
  | _ => exact .quiet (by simp)

/-- **What the server answers, and what it does to the tokens.** -/
theorem call_served (cfg : Config) (db : Db) (n : Nat) (now : Time) (request : Auth.Request) :
    Served db n now request (call cfg db n now request).1.tokens (call cfg db n now request).2 := by
  cases request with
  | login email password userAgent => exact login_served cfg db n now email password userAgent
  | refresh k userAgent => exact refresh_served cfg db n now k userAgent
  | logout k => exact logout_served cfg db n now k

/-! What that leaves of the rows of this browser. -/

theorem Alive.mono {mine' loggedOut' : List Id} (h : Alive t mine loggedOut k)
    (hmine : ∀ f ∈ mine, f ∈ mine') (hended : ∀ f ∈ loggedOut, f ∈ loggedOut') :
    Alive t mine' loggedOut' k := by
  obtain ⟨row, hrow, hid, hfamily, hlive⟩ := h
  exact ⟨row, hrow, hid, hmine _ hfamily, hlive.imp_right (hended _)⟩

/-- Another client's call leaves them alone. -/
theorem alive_frame {fam : Option Id} (hframe : Frame t t' fam)
    (hfam : ∀ f ∈ fam, f ∉ mine) (h : Alive t mine loggedOut k) : Alive t' mine loggedOut k := by
  obtain ⟨row, hrow, hid, hfamily, hlive⟩ := h
  have hother : fam ≠ some row.familyId := fun heq => hfam _ heq hfamily
  exact ⟨row, (hframe row hother).mpr hrow, hid, hfamily, hlive⟩

theorem lives_frame {fam : Option Id} (hframe : Frame t t' fam) (hfam : ∀ f ∈ fam, f ∉ mine)
    (h : Lives t mine loggedOut) : Lives t' mine loggedOut := by
  intro f hf
  refine (h f hf).imp_right ?_
  rintro ⟨row, hrow, rfl, hlive⟩
  have hother : fam ≠ some row.familyId := fun heq => hfam _ heq hf
  exact ⟨row, (hframe row hother).mpr hrow, rfl, hlive⟩

/-- A new family beside them. -/
theorem alive_opens {new : TokenRow} (hinsert : t.insert? new = some t')
    (h : Alive t mine loggedOut k) : Alive t' mine loggedOut k := by
  obtain ⟨row, hrow, hrest⟩ := h
  exact ⟨row, (mem_insert hinsert).mpr (Or.inl hrow), hrest⟩

theorem lives_opens {new : TokenRow} (hinsert : t.insert? new = some t')
    (hlive : new.revokedAt = none) (h : Lives t mine loggedOut) :
    Lives t' (new.familyId :: mine) loggedOut := by
  intro f hf
  rcases List.mem_cons.mp hf with rfl | hold
  · exact Or.inr ⟨new, (mem_insert hinsert).mpr (Or.inr rfl), rfl, hlive⟩
  · refine (h f hold).imp_right ?_
    rintro ⟨row, hrow, hrest⟩
    exact ⟨row, (mem_insert hinsert).mpr (Or.inl hrow), hrest⟩

/-- A family that the browser has logged out of is revoked. -/
theorem alive_revoke {familyId : Id} (hended : familyId ∈ loggedOut)
    (h : Alive db.tokens mine loggedOut k) :
    Alive (db.tokens.revoke (db.liveIds familyId) now) mine loggedOut k := by
  obtain ⟨row, hrow, hid, hfamily, hlive⟩ := h
  by_cases hcond : row.familyId = familyId ∧ row.revokedAt = none
  · obtain ⟨rfl, hnone⟩ := hcond
    exact ⟨_, mem_revoke_family.mpr (Or.inr ⟨row, hrow, rfl, hnone, rfl⟩), hid, hfamily,
      Or.inr hended⟩
  · exact ⟨row, mem_revoke_family.mpr (Or.inl ⟨hrow, hcond⟩), hid, hfamily, hlive⟩

theorem lives_revoke {familyId : Id} (hended : familyId ∈ loggedOut)
    (h : Lives db.tokens mine loggedOut) :
    Lives (db.tokens.revoke (db.liveIds familyId) now) mine loggedOut := by
  intro f hf
  rcases h f hf with hout | ⟨row, hrow, rfl, hlive⟩
  · exact Or.inl hout
  · by_cases hsame : row.familyId = familyId
    · exact Or.inl (hsame ▸ hended)
    · exact Or.inr ⟨row, mem_revoke_family.mpr (Or.inl ⟨hrow, fun hcond => hsame hcond.1⟩), rfl,
        hlive⟩

/-- **An exchange** takes the presented token's place, and touches no other. -/
theorem alive_exchange {row new : TokenRow} (hs : Sound t n) (hmem : row ∈ t.rows)
    (hinsert : t.insert? new = some t') (hid : new.id = n) (hne : k ≠ row.id)
    (h : Alive t mine loggedOut k) : Alive (t'.replace row.id now n) mine loggedOut k := by
  have hfresh : new.id ≠ row.id := hid ▸ Nat.ne_of_gt (hs.id row hmem)
  obtain ⟨r, hr, rfl, hrest⟩ := h
  exact ⟨r, (mem_exchange hinsert hfresh hmem).mpr (Or.inl ⟨hr, hne⟩), rfl, hrest⟩

theorem lives_exchange {row new : TokenRow} (hs : Sound t n) (hmem : row ∈ t.rows)
    (hinsert : t.insert? new = some t') (hid : new.id = n) (hjoins : new.familyId = row.familyId)
    (hlive : new.revokedAt = none) (h : Lives t mine loggedOut) :
    Lives (t'.replace row.id now n) mine loggedOut := by
  have hfresh : new.id ≠ row.id := hid ▸ Nat.ne_of_gt (hs.id row hmem)
  intro f hf
  refine (h f hf).imp_right ?_
  rintro ⟨r, hr, rfl, hr'⟩
  by_cases hsame : r.id = row.id
  · obtain rfl := eq_of_row_id hr hmem hsame
    exact ⟨new, (mem_exchange hinsert hfresh hmem).mpr (Or.inr (Or.inl rfl)), hjoins, hlive⟩
  · exact ⟨r, (mem_exchange hinsert hfresh hmem).mpr (Or.inl ⟨hr, hsame⟩), rfl, hr'⟩

/-- The new token of an exchange. -/
theorem alive_new {row new : TokenRow} (hs : Sound t n) (hmem : row ∈ t.rows)
    (hinsert : t.insert? new = some t') (hid : new.id = n) (hjoins : new.familyId = row.familyId)
    (hlive : new.revokedAt = none) (hmine : row.familyId ∈ mine) :
    Alive (t'.replace row.id now n) mine loggedOut n := by
  have hfresh : new.id ≠ row.id := hid ▸ Nat.ne_of_gt (hs.id row hmem)
  exact ⟨new, (mem_exchange hinsert hfresh hmem).mpr (Or.inr (Or.inl rfl)), hid, hjoins ▸ hmine,
    Or.inl hlive⟩

end Server

/-! ## 2. The invariant -/

/-- The token was sent with a refresh that the server has answered with its successor, and the
answer has not arrived. -/
def Replacing (exchanges : List Exchange) (k : Token) : Prop :=
  ∃ (i : Nat) (e : Exchange), exchanges[i]? = some e ∧ e.isRefresh = true ∧ e.closed = false ∧
    e.cookie = some k ∧ e.token? ≠ none

/-- What the browser holds is live, or is about to be replaced in the jar. -/
structure Safe (t : TokenTable) (mine loggedOut : List Id) (jar : Option Token)
    (exchanges : List Exchange) : Prop where
  lives : Lives t mine loggedOut
  answer : ∀ (i : Nat) (e : Exchange) (k : Token), exchanges[i]? = some e → e.closed = false →
    e.token? = some k → Alive t mine loggedOut k
  cookie : ∀ (i : Nat) (e : Exchange) (k : Token), exchanges[i]? = some e →
    e.isRefresh = true → e.served = none → e.cookie = some k → Alive t mine loggedOut k
  jar : ∀ k, jar = some k → Alive t mine loggedOut k ∨ Replacing exchanges k

section Safe

variable {t t' : TokenTable} {mine mine' loggedOut loggedOut' : List Id} {jar jar' : Option Token}
  {exchanges : List Exchange} {tab : Client.Sys String} {e e' : Exchange} {i n : Nat}

theorem Replacing.concat {k : Token} (h : Replacing exchanges k) (new : List Exchange) :
    Replacing (exchanges ++ new) k := by
  obtain ⟨i, e, hi, hrest⟩ := h
  refine ⟨i, e, ?_, hrest⟩
  rw [List.getElem?_append_left (List.getElem?_eq_some_iff.mp hi).1]
  exact hi

/-- A change of another request keeps it. -/
theorem Replacing.set {k : Token} (h : Replacing exchanges k) (hi : exchanges[i]? = some e)
    (hno : e.isRefresh = false ∨ e.token? = none) : Replacing (exchanges.set i e') k := by
  obtain ⟨j, e₀, hj, hr, hopen, hcookie, htoken⟩ := h
  have hne : j ≠ i := by
    rintro rfl
    obtain rfl := Option.some.inj (hi.symm.trans hj)
    rcases hno with hno | hno
    · exact absurd hr (by simp [hno])
    · exact htoken hno
  exact ⟨j, e₀, (set_other hne).trans hj, hr, hopen, hcookie, htoken⟩

/-- The server's side changes, and no token is lost. -/
theorem Safe.server (h : Safe t mine loggedOut jar exchanges) (hlives : Lives t' mine' loggedOut')
    (halive : ∀ k, Alive t mine loggedOut k → Alive t' mine' loggedOut' k) :
    Safe t' mine' loggedOut' jar exchanges :=
  ⟨hlives, fun i e k hi hopen hk => halive k (h.answer i e k hi hopen hk),
    fun i e k hi hr hserved hk => halive k (h.cookie i e k hi hr hserved hk),
    fun k hk => (h.jar k hk).imp_left (halive k)⟩

/-- A request goes out.  A refresh does so only when no answer of one is under way. -/
theorem Safe.concat (h : Safe t mine loggedOut jar exchanges) (hserved : e.served = none)
    (hcookie : e.cookie = jar)
    (hidle : e.isRefresh = true → ∀ k, ¬ Replacing exchanges k) :
    Safe t mine loggedOut jar (exchanges ++ [e]) := by
  have htoken : ∀ k : Token, e.token? ≠ some k := by simp [Exchange.token?, hserved]
  refine ⟨h.lives, fun i e' k hi hopen hk => ?_, fun i e' k hi hr hserved' hk => ?_,
    fun k hk => (h.jar k hk).imp_right fun hr => hr.concat _⟩
  · rcases concat_cases hi with ⟨-, rfl⟩ | hi
    · exact absurd hk (htoken k)
    · exact h.answer i e' k hi hopen hk
  · rcases concat_cases hi with ⟨-, rfl⟩ | hi
    · exact (h.jar k (hcookie.symm.trans hk)).resolve_right (hidle hr k)
    · exact h.cookie i e' k hi hr hserved' hk

/-- The server gives an answer without a token. -/
theorem Safe.quiet {served : Option Answer} (h : Safe t mine loggedOut jar exchanges)
    (hi : exchanges[i]? = some e) (hnone : e.served = none) (hserved : served ≠ none)
    (hquiet : Exchange.token? { e with served := served } = none) :
    Safe t mine loggedOut jar (exchanges.set i { e with served := served }) := by
  have htoken : e.token? = none := by simp [Exchange.token?, hnone]
  refine ⟨h.lives, fun j e' k hj hopen hk => ?_, fun j e' k hj hr hserved' hk => ?_,
    fun k hk => (h.jar k hk).imp_right fun hr => hr.set hi (Or.inr htoken)⟩
  · rcases set_cases hj with ⟨-, rfl⟩ | ⟨-, hj⟩
    · exact absurd (hquiet.symm.trans hk) (by simp)
    · exact h.answer j e' k hj hopen hk
  · rcases set_cases hj with ⟨-, rfl⟩ | ⟨-, hj⟩
    · exact absurd hserved' hserved
    · exact h.cookie j e' k hj hr hserved' hk

/-- The browser is done with a request: the jar is as it was and the request brought no token to
it, or the jar is empty, or it has the token of the answer. -/
theorem Safe.close (h : Safe t mine loggedOut jar exchanges) (hi : exchanges[i]? = some e)
    (hopen : e.closed = false) (hserved : e.isRefresh = true → e.served ≠ none)
    (hjar : (jar' = jar ∧ (e.isRefresh = false ∨ e.token? = none)) ∨ jar' = none ∨
      (jar' = e.token? ∧ jar' ≠ none)) :
    Safe t mine loggedOut jar' (exchanges.set i { e with closed := true }) := by
  refine ⟨h.lives, fun j e' k hj hopen' hk => ?_, fun j e' k hj hr hserved' hk => ?_,
    fun k hk => ?_⟩
  · rcases set_cases hj with ⟨-, rfl⟩ | ⟨-, hj⟩
    · exact absurd hopen' (by simp)
    · exact h.answer j e' k hj hopen' hk
  · rcases set_cases hj with ⟨-, rfl⟩ | ⟨-, hj⟩
    · exact absurd hserved' (hserved hr)
    · exact h.cookie j e' k hj hr hserved' hk
  · rcases hjar with ⟨rfl, hno⟩ | rfl | ⟨rfl, -⟩
    · exact (h.jar k hk).imp_right fun hr => hr.set hi hno
    · exact absurd hk (by simp)
    · exact Or.inl (h.answer i e k hi hopen hk)

/-- **The server answers a refresh with a token.**  The presented token goes; the jar may still
have it, and nothing else of the browser's does. -/
theorem Safe.exchange {k : Token} {served : Option Answer}
    (h : Safe t mine loggedOut jar exchanges) (hwired : Wired tab exchanges)
    (htokens : Tokens jar exchanges n) (hi : exchanges[i]? = some e) (hr : e.isRefresh = true)
    (hnone : e.served = none) (hcookie : e.cookie = some k)
    (htoken : Exchange.token? { e with served := served } = some n)
    (hlives : Lives t' mine loggedOut) (hnew : Alive t' mine loggedOut n)
    (halive : ∀ k', k' ≠ k → Alive t mine loggedOut k' → Alive t' mine loggedOut k') :
    Safe t' mine loggedOut jar (exchanges.set i { e with served := served }) := by
  have hempty : e.token? = none := by simp [Exchange.token?, hnone]
  have hopen : e.closed = false := by
    by_contra hclosed
    exact hwired.answered i e hi hr (by simpa using hclosed) hnone
  refine ⟨hlives, fun j e' k' hj hopen' hk' => ?_, fun j e' k' hj hr' hserved' hk' => ?_,
    fun k' hk' => ?_⟩
  · rcases set_cases hj with ⟨-, rfl⟩ | ⟨-, hj⟩
    · obtain rfl := Option.some.inj (htoken.symm.trans hk')
      exact hnew
    · exact halive k' (htokens.unsent hj hi hopen' hk' hcookie) (h.answer j e' k' hj hopen' hk')
  · rcases set_cases hj with ⟨-, rfl⟩ | ⟨hne, hj⟩
    · obtain rfl : served = none := hserved'
      exact absurd htoken (by simp [Exchange.token?])
    · -- a second refresh without an answer would be open beside this one
      have hopen' : e'.closed = false := by
        by_contra hclosed
        exact hwired.answered j e' hj hr' (by simpa using hclosed) hserved'
      exact absurd (hwired.unique hj hi hr' hr hopen' hopen) hne
  · by_cases hsame : k' = k
    · subst hsame
      exact Or.inr ⟨i, _, set_self hi, hr, hopen, hcookie, by simp [htoken]⟩
    · exact (h.jar k' hk').imp (halive k' hsame) fun hr => hr.set hi (Or.inr hempty)

/-- **The server answers a login with a token**, of a family beside the others. -/
theorem Safe.login {served : Option Answer} (h : Safe t mine loggedOut jar exchanges)
    (hi : exchanges[i]? = some e) (hr : e.isRefresh = false)
    (htoken : Exchange.token? { e with served := served } = some n)
    (hlives : Lives t' mine' loggedOut) (hnew : Alive t' mine' loggedOut n)
    (halive : ∀ k, Alive t mine loggedOut k → Alive t' mine' loggedOut k) :
    Safe t' mine' loggedOut jar (exchanges.set i { e with served := served }) := by
  refine ⟨hlives, fun j e' k' hj hopen' hk' => ?_, fun j e' k' hj hr' hserved' hk' => ?_,
    fun k' hk' => (h.jar k' hk').imp (halive k') fun hr' => hr'.set hi (Or.inl hr)⟩
  · rcases set_cases hj with ⟨-, rfl⟩ | ⟨-, hj⟩
    · obtain rfl := Option.some.inj (htoken.symm.trans hk')
      exact hnew
    · exact halive k' (h.answer j e' k' hj hopen' hk')
  · rcases set_cases hj with ⟨-, rfl⟩ | ⟨-, hj⟩
    · exact absurd (show e.isRefresh = true from hr') (by simp [hr])
    · exact halive k' (h.cookie j e' k' hj hr' hserved' hk')

end Safe

/-! ## 3. One step -/

/-- What holds between the steps. -/
structure Inv (b : Browser) : Prop where
  server : b.server.Inv
  wired : Wired b.tab b.exchanges
  tokens : Tokens b.jar b.exchanges b.server.log.length
  safe : Safe b.server.db.tokens b.mine b.loggedOut b.jar b.exchanges

variable {cfg : Config} {userAgent : Option String} {b b' : Browser} {e : Exchange} {i : Nat}
  {now : Time}

theorem token_none {answer : Answer} (h : ∀ tokens, answer ≠ .issued tokens) (e : Exchange) :
    Exchange.token? { e with served := some answer } = none := by
  cases answer with
  | issued tokens => exact absurd rfl (h tokens)
  | _ => rfl

theorem opened_quiet {answer : Answer} (h : ∀ tokens, answer ≠ .issued tokens) :
    opened b e answer = b.mine := by
  unfold opened
  split
  · rename_i tokens _
    exact absurd rfl (h tokens)
  · rfl

theorem subset_ended (b : Browser) (e : Exchange) : ∀ f ∈ b.loggedOut, f ∈ ended b e := by
  intro f hf
  unfold ended
  split
  · exact List.mem_append_right _ hf
  · exact hf

theorem lives_mono {t : TokenTable} {mine loggedOut loggedOut' : List Id}
    (h : Lives t mine loggedOut) (hended : ∀ f ∈ loggedOut, f ∈ loggedOut') :
    Lives t mine loggedOut' := fun f hf => (h f hf).imp_left (hended f)

/-- The token that a refresh presents is the key of its row. -/
theorem id_of_hash {t : TokenTable} {n : Nat} {row : TokenRow} {k : Token} (hs : Auth.Sound t n)
    (hrow : row ∈ t.rows) (hhash : row.tokenHash = .sha256 k) : row.id = k :=
  Auth.TokenHash.sha256.inj ((hs.tokenHash row hrow).symm.trans hhash)

/-- A login of the service is one of the browser, ... -/
theorem kind_of_login {email password : String} {agent : Option String}
    (h : e.request userAgent = some (.login email password agent)) :
    ∃ email password, e.kind = .login email password := by
  obtain ⟨kind, cookie, served, closed⟩ := e
  cases kind with
  | login email password => exact ⟨email, password, rfl⟩
  | refresh r => exact absurd h (by simp [Exchange.request])
  | logout => exact absurd h (by simp [Exchange.request])

/-- ... a refresh presents the cookie, ... -/
theorem kind_of_refresh {k : Token} {agent : Option String}
    (h : e.request userAgent = some (.refresh k agent)) :
    (∃ r, e.kind = .refresh r) ∧ e.cookie = some k := by
  obtain ⟨kind, cookie, served, closed⟩ := e
  cases kind with
  | refresh r =>
    simp only [Exchange.request, Option.map_eq_some_iff, Auth.Request.refresh.injEq] at h
    obtain ⟨k', hk', rfl, -⟩ := h
    exact ⟨⟨r, rfl⟩, hk'⟩
  | login email password => exact absurd h (by simp [Exchange.request])
  | logout => exact absurd h (by simp [Exchange.request])

/-- ... and so does a logout. -/
theorem kind_of_logout {k : Option Token} (h : e.request userAgent = some (.logout k)) :
    e.kind = .logout ∧ e.cookie = k := by
  obtain ⟨kind, cookie, served, closed⟩ := e
  cases kind with
  | logout => exact ⟨rfl, by simpa [Exchange.request] using h⟩
  | login email password => exact absurd h (by simp [Exchange.request])
  | refresh r => exact absurd h (by simp [Exchange.request])

/-- **The server handles a request of the browser.** -/
theorem serve_safe {request : Auth.Request} {t' : TokenTable} {answer : Answer} (hb : Inv b)
    (hi : b.exchanges[i]? = some e) (hnone : e.served = none)
    (hrequest : e.request userAgent = some request)
    (hs : Served b.server.db b.server.log.length now request t' answer) :
    Safe t' (opened b e answer) (ended b e) b.jar
      (b.exchanges.set i { e with served := some answer }) := by
  have hsound : Auth.Sound b.server.db.tokens b.server.log.length := hb.server.sound
  -- the families that the browser has logged out of may become more
  have hsafe : Safe b.server.db.tokens b.mine (ended b e) b.jar b.exchanges :=
    hb.safe.server (lives_mono hb.safe.lives (subset_ended b e)) fun k hk =>
      hk.mono (fun f hf => hf) (subset_ended b e)
  cases hs with
  | quiet hquiet =>
    rw [opened_quiet hquiet]
    exact hsafe.quiet hi hnone (by simp) (token_none hquiet e)
  | @opens _ _ _ _ _ tokens insert id joins live token =>
    obtain ⟨email, password, hkind⟩ := kind_of_login hrequest
    have htoken : Exchange.token? { e with served := some (.issued tokens) } =
        some b.server.log.length := congrArg some token
    have hopened : opened b e (.issued tokens) = b.server.log.length :: b.mine := by
      simp only [opened, hkind]
    rw [hopened]
    refine hsafe.login hi (by simp [Exchange.isRefresh, hkind]) htoken ?_ ?_ fun k hk => ?_
    · rw [← joins]
      exact lives_opens insert live hsafe.lives
    · exact ⟨_, (Auth.mem_insert insert).mpr (Or.inr rfl), id, joins ▸ List.mem_cons_self,
        Or.inl live⟩
    · exact (alive_opens insert hk).mono (fun f hf => List.mem_cons_of_mem _ hf) fun f hf => hf
  | @exchanges k _ row _ _ tokens mem hash insert id joins live token =>
    obtain ⟨⟨r, hkind⟩, hcookie⟩ := kind_of_refresh hrequest
    have htoken : Exchange.token? { e with served := some (.issued tokens) } =
        some b.server.log.length := congrArg some token
    have hr : e.isRefresh = true := isRefresh_iff.mpr ⟨r, hkind⟩
    have hopened : opened b e (.issued tokens) = b.mine := by simp only [opened, hkind]
    rw [hopened]
    obtain rfl := id_of_hash hsound mem hash
    -- the presented token is one that the browser holds, so the family is its own
    obtain ⟨row, hrow, hid, hmine, -⟩ := hsafe.cookie i e _ hi hr hnone hcookie
    obtain rfl := Auth.eq_of_row_id hrow mem hid
    exact hsafe.exchange hb.wired hb.tokens hi hr hnone hcookie htoken
      (lives_exchange hsound hrow insert id joins live hsafe.lives)
      (alive_new hsound hrow insert id joins live hmine)
      fun k hne hk => alive_exchange hsound hrow insert id hne hk
  | @replayed k _ row _ mem hash revoked hquiet =>
    obtain ⟨⟨r, hkind⟩, hcookie⟩ := kind_of_refresh hrequest
    have hr : e.isRefresh = true := isRefresh_iff.mpr ⟨r, hkind⟩
    rw [opened_quiet hquiet]
    obtain rfl := id_of_hash hsound mem hash
    -- a revoked token that the browser still sends is of a family it has logged out of
    obtain ⟨row, hrow, hid, -, hlive⟩ := hsafe.cookie i e _ hi hr hnone hcookie
    obtain rfl := Auth.eq_of_row_id hrow mem hid
    have hout : row.familyId ∈ ended b e := hlive.resolve_left revoked
    have hlives : Lives (b.server.db.tokens.revoke (b.server.db.liveIds row.familyId) now) b.mine
        (ended b e) := lives_revoke hout hsafe.lives
    have hrevoked := hsafe.server hlives fun k hk => alive_revoke hout hk
    exact hrevoked.quiet hi hnone (by simp) (token_none hquiet e)
  | @ends k row _ mem about hquiet =>
    obtain ⟨hkind, hcookie⟩ := kind_of_logout hrequest
    rw [opened_quiet hquiet]
    have hout : row.familyId ∈ ended b e := by simp [ended, hkind, hcookie, about]
    have hlives : Lives (b.server.db.tokens.revoke (b.server.db.liveIds row.familyId) now) b.mine
        (ended b e) := lives_revoke hout hsafe.lives
    have hrevoked := hsafe.server hlives fun k hk => alive_revoke hout hk
    exact hrevoked.quiet hi hnone (by simp) (token_none hquiet e)

/-- The token of an answer is the next one. -/
theorem served_token {db : Auth.Db} {n : Nat} {request : Auth.Request} {t' : TokenTable}
    {answer : Answer} (hs : Served db n now request t' answer) (e : Exchange) :
    ∀ k, Exchange.token? { e with served := some answer } = some k → k = n := by
  intro k hk
  cases hs with
  | opens insert id joins live token => exact (Option.some.inj hk).symm.trans token
  | exchanges mem hash insert id joins live token => exact (Option.some.inj hk).symm.trans token
  | quiet hquiet => exact absurd ((token_none hquiet e).symm.trans hk) (by simp)
  | replayed mem hash revoked hquiet => exact absurd ((token_none hquiet e).symm.trans hk) (by simp)
  | ends mem about hquiet => exact absurd ((token_none hquiet e).symm.trans hk) (by simp)

theorem serve_inv (hb : Inv b) (hi : b.exchanges[i]? = some e) (hnone : e.served = none)
    (h : b.serve cfg userAgent i now e = some b') : Inv b' := by
  unfold Browser.serve at h
  split at h
  · obtain rfl := Option.some.inj h
    exact ⟨hb.server, hb.wired.serve hi (by simp),
      hb.tokens.serve (Nat.le_refl _) hi hnone (by simp [Exchange.token?]),
      hb.safe.quiet hi hnone (by simp) rfl⟩
  · rename_i request hrequest
    obtain ⟨server, hstep, rfl⟩ := Option.map_eq_some_iff.mp h
    obtain ⟨hdb, hlog⟩ := Auth.step_call hstep
    have hs := call_served cfg b.server.db b.server.log.length now request
    rw [← hdb] at hs
    have hlength : server.log.length = b.server.log.length + 1 := by rw [hlog, List.length_cons]
    have hlt : b.server.log.length < server.log.length := by omega
    simp only [Auth.step_answer hstep, Option.getD_some]
    refine ⟨Auth.event_inv hb.server hstep, hb.wired.serve hi (by simp), ?_,
      serve_safe hb hi hnone hrequest hs⟩
    refine hb.tokens.serve (Nat.le_of_lt hlt) hi hnone fun k hk => ?_
    obtain rfl := served_token hs e k hk
    exact ⟨rfl, hlt⟩

/-- The cookie behind a response that has arrived. -/
theorem setCookie_cases (jar : Option Token) (e : Exchange) :
    (setCookie jar e = jar ∧ e.token? = none) ∨ setCookie jar e = none ∨
      (setCookie jar e = e.token? ∧ setCookie jar e ≠ none) := by
  obtain ⟨kind, cookie, served, closed⟩ := e
  cases served with
  | none => cases kind <;> exact Or.inl ⟨rfl, rfl⟩
  | some answer =>
    cases answer with
    | issued tokens => cases kind <;> exact Or.inr (Or.inr ⟨rfl, by simp [setCookie]⟩)
    | loggedOut =>
      cases kind with
      | logout => exact Or.inr (Or.inl rfl)
      | _ => exact Or.inl ⟨rfl, rfl⟩
    | _ => cases kind <;> exact Or.inl ⟨rfl, rfl⟩

theorem replacing_open {tab : Client.Sys String} {exchanges : List Exchange} {k : Token}
    (hwired : Wired tab exchanges) (hidle : tab.shared.refreshInFlight = none) :
    ¬ Replacing exchanges k := by
  rintro ⟨i, e, hi, hr, hopen, -⟩
  exact absurd (hopen.symm.trans (hwired.idle hidle hi hr)) (by simp)

/-- **One step keeps the browser's tokens live.** -/
theorem step_inv {l : Label} (hb : Inv b) (hlossless : Lossless b l)
    (h : b.step cfg userAgent l = some b') : Inv b' := by
  cases l with
  | page l =>
    simp only [Browser.step] at h
    split at h
    · rename_i hpage
      obtain ⟨tab, hstep, rfl⟩ := Option.map_eq_some_iff.mp h
      have hstarts := page_starts hpage hstep
      obtain ⟨hwired, hnil | ⟨hidle, hone⟩⟩ :=
        hb.wired.page b.jar (Client.step_ok hb.wired.ok hstep) hstarts
      · rw [hnil, List.append_nil] at hwired
        simp only [hnil, List.append_nil]
        exact ⟨hb.server, hwired, hb.tokens, hb.safe⟩
      · rw [hone] at hwired
        simp only [hone]
        exact ⟨hb.server, hwired, hb.tokens.concat rfl rfl,
          hb.safe.concat rfl rfl fun _ k => replacing_open hb.wired hidle⟩
    · exact absurd h (by simp)
  | post kind =>
    have hpost : ∀ kind : Kind, (∀ r, kind ≠ .refresh r) →
        Inv { b with exchanges := b.exchanges ++ [{ kind := kind, cookie := b.jar }] } := by
      intro kind hno
      have hr : Exchange.isRefresh { kind := kind, cookie := b.jar } = false := by
        cases kind with
        | refresh r => exact absurd rfl (hno r)
        | _ => rfl
      exact ⟨hb.server, hb.wired.concat hr, hb.tokens.concat rfl rfl,
        hb.safe.concat rfl rfl fun hyes => absurd (hr.symm.trans hyes) (by simp)⟩
    cases kind with
    | refresh r => exact absurd h (by simp [Browser.step])
    | login email password =>
      obtain rfl := Option.some.inj h
      exact hpost _ (by simp)
    | logout =>
      obtain rfl := Option.some.inj h
      exact hpost _ (by simp)
  | serve i now =>
    obtain ⟨e, hi, h⟩ := Option.bind_eq_some_iff.mp h
    split at h
    · rename_i hnone
      exact serve_inv hb hi hnone h
    · exact absurd h (by simp)
  | receive i =>
    obtain ⟨e, hi, h⟩ := Option.bind_eq_some_iff.mp h
    split at h
    · rename_i hcond
      obtain ⟨tab, htab, rfl⟩ := Option.map_eq_some_iff.mp h
      have hcookie := setCookie_cases b.jar e
      refine ⟨hb.server, hb.wired.receive hi hcond.1 htab, hb.tokens.close hi fun k hk => ?_,
        hb.safe.close hi hcond.2 (fun _ => hcond.1) ?_⟩
      · rcases hcookie with ⟨hsame, -⟩ | hnone | ⟨htoken, -⟩
        · exact Or.inl (hsame.symm.trans hk)
        · exact absurd (hnone.symm.trans hk) (by simp)
        · exact Or.inr (htoken.symm.trans hk)
      · exact hcookie.imp_left fun hsame => ⟨hsame.1, Or.inr hsame.2⟩
    · exact absurd h (by simp)
  | lose i =>
    obtain ⟨e, hi, h⟩ := Option.bind_eq_some_iff.mp h
    split at h
    · rename_i hopen
      obtain ⟨tab, htab, rfl⟩ := Option.map_eq_some_iff.mp h
      have hr : e.isRefresh = false := hlossless e hi
      exact ⟨hb.server, hb.wired.lose hi hr htab, hb.tokens.close hi fun k hk => Or.inl hk,
        hb.safe.close hi hopen (fun hyes => absurd (hr.symm.trans hyes) (by simp))
          (Or.inl ⟨rfl, Or.inl hr⟩)⟩
    · exact absurd h (by simp)
  | others request now =>
    simp only [Browser.step] at h
    split at h
    · rename_i hothers
      obtain ⟨server, hstep, rfl⟩ := Option.map_eq_some_iff.mp h
      obtain ⟨hdb, hlog⟩ := Auth.step_call hstep
      obtain ⟨-, hkeeps, hframe⟩ := Auth.touches_sound hb.server.sound
        (Auth.call_touches cfg b.server.db b.server.log.length now request)
      rw [← hdb] at hframe
      have hlength : b.server.log.length ≤ server.log.length := by
        rw [hlog]
        exact Nat.le_succ _
      exact ⟨Auth.event_inv hb.server hstep, hb.wired, hb.tokens.mono hlength,
        hb.safe.server (lives_frame hframe hothers hb.safe.lives)
          fun k hk => alive_frame hframe hothers hk⟩
    · exact absurd h (by simp)
  | users users =>
    obtain rfl := Option.some.inj h
    exact ⟨⟨hb.server.sound, hb.server.recorded⟩, hb.wired, hb.tokens, hb.safe⟩

theorem start_session (users : List Auth.User) : Inv (start users) where
  server := Auth.start_inv users
  wired := ⟨Client.start_ok, by simp [start], by simp [start], by simp [start], by simp [start]⟩
  tokens := ⟨by simp [start], by simp [start], by simp [start], by simp [start]⟩
  safe := ⟨by simp [start, Lives], by simp [start], by simp [start], by simp [start]⟩

/-! ## 4. Every run -/

/-- **The browser's sessions survive.**  In every run without a lost reply to a refresh, whatever
the tab's calls, the logins, the logouts and the other clients do: a family that this browser has
opened and not logged out of has a live token, and while no refresh is in flight the token in the
jar is the key of a row that is live, or of a family it has logged out of. -/
theorem session_survives (cfg : Config) (userAgent : Option String) (users : List Auth.User)
    {ls : List Label} {b : Browser}
    (hrun : run (Browser.step cfg userAgent) (start users) ls = some b)
    (hlossless : Guarded (Browser.step cfg userAgent) Lossless (start users) ls) :
    (∀ f ∈ b.mine, f ∉ b.loggedOut → ¬ Dead b.server.db.tokens f) ∧
    (∀ k, b.jar = some k → b.tab.shared.refreshInFlight = none →
      Alive b.server.db.tokens b.mine b.loggedOut k) := by
  have hb : Inv b := run_invariant (fun _ _ _ => step_inv) (start_session users) hlossless hrun
  refine ⟨fun f hf hin hdead => ?_, fun k hk hidle => ?_⟩
  · obtain ⟨row, hrow, hfamily, hlive⟩ := (hb.safe.lives f hf).resolve_left hin
    exact hdead row hrow hfamily hlive
  · exact (hb.safe.jar k hk).resolve_right (replacing_open hb.wired hidle)

/-- A login, and the refresh of a reload: exchange 0 and exchange 1, with the server's answer to the
latter on its way. -/
def reloadRun : List Label :=
  [.post (.login "a@b.c" "pw"), .serve 0 0, .receive 0, .page (.call .bootstrap),
    .serve 1 10000000]

/-- The response arrives, and the page reloads once more. -/
def arrivedRun : List Label :=
  reloadRun ++ [.receive 1, .page (.decode 0), .page (.settle 0), .page (.call .bootstrap),
    .serve 2 80000000]

theorem session_survives_reload :
    ∃ b, run (Browser.step Auth.sampleConfig none) (start Auth.sampleUsers) arrivedRun = some b ∧
      0 ∈ b.mine ∧ ¬ Dead b.server.db.tokens 0 := by
  have hend : (run (Browser.step Auth.sampleConfig none) (start Auth.sampleUsers) arrivedRun).map
      (fun b => (b.mine, b.loggedOut)) = some ([0], []) := by decide
  obtain ⟨b, hb, heq⟩ := Option.map_eq_some_iff.mp hend
  obtain ⟨hmine, hout⟩ := Prod.mk.inj heq
  have hmem : 0 ∈ b.mine := by simp [hmine]
  exact ⟨b, hb, hmem, (session_survives Auth.sampleConfig none Auth.sampleUsers hb
    (by decide)).1 0 hmem (by simp [hout])⟩

/-- The response is lost.  The next reload presents the replaced token, more than the grace period
later. -/
def lostRun : List Label :=
  reloadRun ++ [.lose 1, .page (.settle 0), .page (.call .bootstrap), .serve 2 80000000]

/-- **Without the condition it fails**: one lost reply, and the family is revoked though nobody has
logged out. -/
theorem lost_reply_revokes :
    ∃ b, run (Browser.step Auth.sampleConfig none) (start Auth.sampleUsers) lostRun = some b ∧
      0 ∈ b.mine ∧ 0 ∉ b.loggedOut ∧ Dead b.server.db.tokens 0 := by
  have hend : (run (Browser.step Auth.sampleConfig none) (start Auth.sampleUsers) lostRun).map
      (fun b => (b.mine, b.loggedOut, b.server.db.tokens.rows.map TokenRow.revokedAt)) =
        some ([0], [], [some 10000000, some 80000000]) := by decide
  obtain ⟨b, hb, heq⟩ := Option.map_eq_some_iff.mp hend
  simp only [Prod.mk.injEq] at heq
  obtain ⟨hmine, hout, hrows⟩ := heq
  refine ⟨b, hb, by simp [hmine], by simp [hout], fun row hrow _ hnone => ?_⟩
  have hmem : row.revokedAt ∈ b.server.db.tokens.rows.map TokenRow.revokedAt :=
    List.mem_map_of_mem hrow
  rw [hrows, hnone] at hmem
  exact absurd hmem (by decide)

end AtlasKnowledge.Frontend.Session
