/-
# The browser and the server's sessions

One tab (`Client.lean`) with its cookie jar and its requests to `/api/auth/`, against the server
with its calls one after the other (`Auth/Atomic.lean`).  A response writes the cookie when it
arrives, and a refresh goes out with the cookie of the moment at which the tab starts it.  Other
clients act on their own families as they like.

* `Wired`: the requests that are out are those of the tab's refreshes, so that one refresh is open
  at most, and a new one starts only when every earlier one is closed;
* `Tokens`: every token that the browser holds came with an answer of its own, and what it has sent
  had arrived before.
-/
import AtlasKnowledge.Frontend.Client
import AtlasKnowledge.Auth.Atomic

namespace AtlasKnowledge.Frontend.Session

open Interleave Transition
open Auth (Token Time Config Server Answer)

/-! ## 1. The browser -/

/-- The requests whose answers write the cookie; a refresh is the one of the tab at `r`. -/
inductive Kind where
  | refresh (r : Nat)
  | login (email password : String)
  | logout
  deriving DecidableEq, Repr

/-- A request to `/api/auth/`: the cookie it carries, the server's answer, and whether the browser
is done with it. -/
structure Exchange where
  kind : Kind
  cookie : Option Token
  served : Option Answer := none
  closed : Bool := false
  deriving DecidableEq, Repr

def Exchange.isRefresh (e : Exchange) : Bool :=
  match e.kind with
  | .refresh _ => true
  | _ => false

/-- The token in the answer's `Set-Cookie`. -/
def Exchange.token? (e : Exchange) : Option Token :=
  match e.served with
  | some (.issued tokens) => some tokens.refreshToken
  | _ => none

/-- The router: a refresh without a cookie does not reach the service. -/
def Exchange.request (userAgent : Option String) (e : Exchange) : Option Auth.Request :=
  match e.kind with
  | .refresh _ => e.cookie.map fun token => .refresh token userAgent
  | .login email password => some (.login email password userAgent)
  | .logout => some (.logout e.cookie)

/-- The tab, the cookie `rt`, the requests so far, and the server; `mine` are the families that
logins of this browser have opened, `loggedOut` those whose cookie it has sent to the logout. -/
structure Browser where
  tab : Client.Sys String
  jar : Option Token
  exchanges : List Exchange
  server : Server
  mine : List Id
  loggedOut : List Id

inductive Label where
  /-- The page goes on, without a reply to a refresh. -/
  | page (l : Client.Label String)
  /-- `POST /auth/login` or `POST /auth/logout`. -/
  | post (kind : Kind)
  /-- The server handles the request at this position. -/
  | serve (i : Nat) (now : Time)
  /-- Its response arrives. -/
  | receive (i : Nat)
  /-- The request or its response is lost; the server may have handled it, or may do so later. -/
  | lose (i : Nat)
  /-- Another client's call, on a family that is not of this browser. -/
  | others (request : Auth.Request) (now : Time)
  | users (users : List Auth.User)

/-- What the page does by itself; a refresh's `json` may reject once the response is there. -/
def pageLabel (t : Client.Tab String) : Client.Label String → Bool
  | .reply _ _ => false
  | .fail r => (t.decoding? r).isSome
  | _ => true

/-- The requests of the refreshes that the step has started. -/
def started (jar : Option Token) (t t' : Client.Tab String) : List Exchange :=
  (List.range' t.refreshes.length (t'.refreshes.length - t.refreshes.length)).map fun r =>
    { kind := .refresh r, cookie := jar }

/-- The cookie behind a response. -/
def setCookie (jar : Option Token) (e : Exchange) : Option Token :=
  match e.kind, e.served with
  | .logout, some .loggedOut => none
  | _, some (.issued tokens) => some tokens.refreshToken
  | _, _ => jar

/-- What the tab makes of a response, or of none. -/
def tabReceives (tab : Client.Sys String) (e : Exchange) : Option (Client.Sys String) :=
  match e.kind, e.served with
  | .refresh r, some (.issued tokens) => tab.step (.reply r (some tokens.accessToken))
  | .refresh r, _ => tab.step (.reply r none)
  | _, _ => some tab

def tabLoses (tab : Client.Sys String) (e : Exchange) : Option (Client.Sys String) :=
  match e.kind with
  | .refresh r => tab.step (.fail r)
  | _ => some tab

/-- The families after the server has answered: a login that was answered with tokens has opened
one, and a logout is about the family of its cookie. -/
def opened (b : Browser) (e : Exchange) (answer : Answer) : List Id :=
  match e.kind, answer with
  | .login _ _, .issued _ => b.server.log.length :: b.mine
  | _, _ => b.mine

def ended (b : Browser) (e : Exchange) : List Id :=
  match e.kind with
  | .logout => ((Auth.Request.logout e.cookie).family b.server.db 0).toList ++ b.loggedOut
  | _ => b.loggedOut

/-- The server's part of a step. -/
def Browser.serve (cfg : Config) (userAgent : Option String) (b : Browser) (i : Nat) (now : Time)
    (e : Exchange) : Option Browser :=
  match e.request userAgent with
  | none => some { b with
      exchanges := b.exchanges.set i { e with served := some .invalidRefreshToken } }
  | some request =>
    (b.server.step cfg (.call request now)).map fun server =>
      { b with
        server := server
        exchanges := b.exchanges.set i { e with served := server.answer? }
        mine := opened b e (server.answer?.getD .aborted)
        loggedOut := ended b e }

/-- One step of the browser, the server or another client. -/
def Browser.step (cfg : Config) (userAgent : Option String) (b : Browser) : Label → Option Browser
  | .page l =>
    if pageLabel b.tab.shared l then
      (b.tab.step l).map fun tab =>
        { b with
          tab := tab
          exchanges := b.exchanges ++ started b.jar b.tab.shared tab.shared }
    else none
  | .post kind =>
    match kind with
    | .refresh _ => none
    | kind => some { b with exchanges := b.exchanges ++ [{ kind := kind, cookie := b.jar }] }
  | .serve i now =>
    b.exchanges[i]?.bind fun e =>
      if e.served = none then b.serve cfg userAgent i now e else none
  | .receive i =>
    b.exchanges[i]?.bind fun e =>
      if e.served ≠ none ∧ e.closed = false then
        (tabReceives b.tab e).map fun tab =>
          { b with
            tab := tab
            jar := setCookie b.jar e
            exchanges := b.exchanges.set i { e with closed := true } }
      else none
  | .lose i =>
    b.exchanges[i]?.bind fun e =>
      if e.closed = false then
        (tabLoses b.tab e).map fun tab =>
          { b with tab := tab, exchanges := b.exchanges.set i { e with closed := true } }
      else none
  | .others request now =>
    if ∀ f ∈ request.family b.server.db b.server.log.length, f ∉ b.mine then
      (b.server.step cfg (.call request now)).map fun server => { b with server := server }
    else none
  | .users users =>
    (b.server.step cfg (.users users)).map fun server => { b with server := server }

/-- A browser without a session. -/
def start (users : List Auth.User) : Browser :=
  ⟨Client.start, none, [], Server.start users, [], []⟩

/-- The step loses no reply to a refresh. -/
def Lossless (b : Browser) : Label → Prop
  | .lose i => ∀ e ∈ b.exchanges[i]?, e.isRefresh = false
  | _ => True

instance (b : Browser) : DecidablePred (Lossless b)
  | .lose i => inferInstanceAs (Decidable (∀ e ∈ b.exchanges[i]?, e.isRefresh = false))
  | .page _ | .post _ | .serve _ _ | .receive _ | .others _ _ | .users _ => .isTrue trivial

/-! ## 2. The tab's part -/

section Tab

variable {t t' : Client.Tab String} {tab tab' : Client.Sys String} {r : Nat}

/-- The request of the refresh is out. -/
def Requested (t : Client.Tab String) (r : Nat) : Prop := t.refreshes[r]? = some .requested

/-- What the page does to the requests that are out: nothing, or it starts one while none is. -/
def Starts (t t' : Client.Tab String) : Prop :=
  (t'.refreshes.length = t.refreshes.length ∧ ∀ r, Requested t' r ↔ Requested t r) ∨
    (t.refreshInFlight = none ∧ t'.refreshes = t.refreshes ++ [.requested])

theorem Starts.of_same (h : t'.refreshes = t.refreshes) : Starts t t' :=
  Or.inl ⟨by rw [h], fun r => by rw [Requested, Requested, h]⟩

theorem refreshSession_starts (t : Client.Tab String) : Starts t t.refreshSession.1 := by
  unfold Client.Tab.refreshSession
  cases hflight : t.refreshInFlight with
  | some r => exact .of_same rfl
  | none => exact Or.inr ⟨hflight, rfl⟩

/-- A refresh that moves on between two other places. -/
theorem move_starts {next : Client.Refresh String → Option (Client.Refresh String)}
    (h : t.move r next = some t')
    (hnext : ∀ p p', next p = some p' → p' ≠ .requested ∧ (t.refreshes[r]? = some p →
      p ≠ .requested)) : Starts t t' := by
  obtain ⟨p', hbind, rfl⟩ := Option.map_eq_some_iff.mp h
  obtain ⟨p, hp, hp'⟩ := Option.bind_eq_some_iff.mp hbind
  obtain ⟨hne', hne⟩ := hnext p p' hp'
  refine Or.inl ⟨by simp, fun r' => ?_⟩
  by_cases hsame : r' = r
  · subst hsame
    rw [Requested, Requested, set_self hp, hp]
    exact iff_of_false (fun h => hne' (Option.some.inj h)) fun h => hne hp (Option.some.inj h)
  · rw [Requested, Requested, set_other hsame]

theorem call_starts {c c' : Client.Call String} {choice : Client.Choice}
    (h : c.step t choice = some (t', c')) : Starts t t' := by
  obtain ⟨kind, sent, joined, pc⟩ := c
  cases choice with
  | respond res =>
    cases pc with
    | sending retried =>
      simp only [Client.Call.step] at h
      split at h
      · obtain ⟨rfl, -⟩ := Prod.mk.inj (Option.some.inj h)
        exact refreshSession_starts t
      · obtain ⟨rfl, -⟩ := Prod.mk.inj (Option.some.inj h)
        exact .of_same rfl
    | _ => exact absurd h (by simp [Client.Call.step])
  | fail =>
    cases pc with
    | sending retried =>
      obtain ⟨rfl, -⟩ := Prod.mk.inj (Option.some.inj h)
      exact .of_same rfl
    | _ => exact absurd h (by simp [Client.Call.step])
  | resume =>
    cases pc with
    | waiting r res =>
      simp only [Client.Call.step] at h
      split at h
      · rename_i outcome _
        have hsame : ∀ c : Client.Call String,
          ((c.resume t res outcome).1).refreshes = t.refreshes := by
          intro c
          unfold Client.Call.resume
          split
          · split <;> rfl
          · split <;> rfl
          · rfl
        obtain ⟨rfl, -⟩ := Prod.mk.inj (Option.some.inj h)
        exact .of_same (hsame _)
      · exact absurd h (by simp)
    | _ => exact absurd h (by simp [Client.Call.step])

/-- **The page starts a refresh only while none is in flight.** -/
theorem page_starts {l : Client.Label String} (hl : pageLabel tab.shared l = true)
    (h : tab.step l = some tab') : Starts tab.shared tab'.shared := by
  cases l with
  | call kind =>
    obtain rfl := Option.some.inj h
    cases kind with
    | bootstrap => exact refreshSession_starts tab.shared
    | _ => exact .of_same rfl
  | act i choice =>
    obtain ⟨c, t, c', -, hstep, rfl⟩ := Par.act_eq_some.mp h
    exact call_starts hstep
  | reply r token => exact absurd hl (by simp [pageLabel])
  | fail r =>
    obtain ⟨t, hmove, rfl⟩ := Option.map_eq_some_iff.mp h
    refine move_starts hmove fun p p' hp => ⟨?_, fun hr => ?_⟩
    · rintro rfl
      cases p <;> simp [Client.onFail] at hp
    · rintro rfl
      exact absurd hl (by simp [pageLabel, Client.Tab.decoding?, hr])
  | decode r =>
    obtain ⟨a, -, h⟩ := Option.bind_eq_some_iff.mp h
    obtain ⟨t, hmove, rfl⟩ := Option.map_eq_some_iff.mp h
    have hstarts : Starts tab.shared t := by
      refine move_starts hmove fun p p' hp => ⟨?_, fun _ => ?_⟩
      · rintro rfl
        cases p <;> simp [Client.onDecode] at hp
      · rintro rfl
        exact absurd hp (by simp [Client.onDecode])
    exact hstarts
  | settle r =>
    obtain ⟨t, hmove, rfl⟩ := Option.map_eq_some_iff.mp h
    have hstarts : Starts tab.shared t := by
      refine move_starts hmove fun p p' hp => ⟨?_, fun _ => ?_⟩
      · rintro rfl
        cases p <;> simp [Client.onSettle] at hp
      · rintro rfl
        exact absurd hp (by simp [Client.onSettle])
    exact hstarts
  | setAuth a =>
    obtain rfl := Option.some.inj h
    exact .of_same rfl
  | clear =>
    obtain rfl := Option.some.inj h
    exact .of_same rfl

/-- A response to a refresh: its request is no longer out, and the others are as they were. -/
theorem reply_requested {token : Option String} (h : tab.step (.reply r token) = some tab') :
    Requested tab.shared r ∧ ¬ Requested tab'.shared r ∧
      (∀ r', r' ≠ r → (Requested tab'.shared r' ↔ Requested tab.shared r')) ∧
      tab'.shared.refreshes.length = tab.shared.refreshes.length := by
  obtain ⟨t, hmove, rfl⟩ := Option.map_eq_some_iff.mp h
  obtain ⟨p', hbind, rfl⟩ := Option.map_eq_some_iff.mp hmove
  obtain ⟨p, hp, hp'⟩ := Option.bind_eq_some_iff.mp hbind
  cases p with
  | requested =>
    obtain rfl := Option.some.inj hp'
    refine ⟨hp, ?_, fun r' hr' => ?_, by simp⟩
    · rw [Requested, set_self hp]
      cases token <;> simp
    · rw [Requested, Requested, set_other hr']
  | _ => exact absurd hp' (by simp [Client.onReply])

end Tab

/-! ## 3. The requests and the tab -/

theorem isRefresh_iff {e : Exchange} : e.isRefresh = true ↔ ∃ r, e.kind = .refresh r := by
  obtain ⟨kind, cookie, served, closed⟩ := e
  cases kind <;> simp [Exchange.isRefresh]

/-- The refreshes of the tab and the requests of the browser go together. -/
structure Wired (tab : Client.Sys String) (exchanges : List Exchange) : Prop where
  ok : tab.Ok
  bound : ∀ (i : Nat) (e : Exchange) (r : Nat), exchanges[i]? = some e → e.kind = .refresh r →
    r < tab.shared.refreshes.length
  once : ∀ (i j : Nat) (e e' : Exchange) (r : Nat), exchanges[i]? = some e →
    exchanges[j]? = some e' → e.kind = .refresh r → e'.kind = .refresh r → i = j
  out : ∀ (i : Nat) (e : Exchange) (r : Nat), exchanges[i]? = some e → e.kind = .refresh r →
    (e.closed = false ↔ Requested tab.shared r)
  answered : ∀ (i : Nat) (e : Exchange), exchanges[i]? = some e → e.isRefresh = true →
    e.closed = true → e.served ≠ none

section Wiring

variable {tab tab' : Client.Sys String} {exchanges : List Exchange} {e e' : Exchange} {i j : Nat}

/-- **One refresh is open at most.** -/
theorem Wired.unique (h : Wired tab exchanges) (hi : exchanges[i]? = some e)
    (hj : exchanges[j]? = some e') (hr : e.isRefresh = true) (hr' : e'.isRefresh = true)
    (hopen : e.closed = false) (hopen' : e'.closed = false) : i = j := by
  obtain ⟨r, hkind⟩ := isRefresh_iff.mp hr
  obtain ⟨r', hkind'⟩ := isRefresh_iff.mp hr'
  have ht : tab.shared.Single := h.ok.holds.shared
  have hout : Requested tab.shared r := (h.out i e r hi hkind).mp hopen
  have hout' : Requested tab.shared r' := (h.out j e' r' hj hkind').mp hopen'
  have hflight : tab.shared.refreshInFlight = some r := (ht r).mpr ⟨_, hout, rfl⟩
  have hflight' : tab.shared.refreshInFlight = some r' := (ht r').mpr ⟨_, hout', rfl⟩
  obtain rfl := Option.some.inj (hflight.symm.trans hflight')
  exact h.once i j e e' r hi hj hkind hkind'

/-- While nothing is in flight, every refresh is closed. -/
theorem Wired.idle (h : Wired tab exchanges) (hidle : tab.shared.refreshInFlight = none)
    (hi : exchanges[i]? = some e) (hr : e.isRefresh = true) : e.closed = true := by
  by_contra hopen
  obtain ⟨r, hkind⟩ := isRefresh_iff.mp hr
  have ht : tab.shared.Single := h.ok.holds.shared
  have hout : Requested tab.shared r := (h.out i e r hi hkind).mp (by simpa using hopen)
  have hflight : tab.shared.refreshInFlight = some r := (ht r).mpr ⟨_, hout, rfl⟩
  exact absurd (hidle.symm.trans hflight) (by simp)

/-- A request that is no refresh joins. -/
theorem Wired.concat (h : Wired tab exchanges) (hr : e.isRefresh = false) :
    Wired tab (exchanges ++ [e]) := by
  have hold : ∀ {j : Nat} {e' : Exchange} {r : Nat}, (exchanges ++ [e])[j]? = some e' →
      e'.kind = .refresh r → exchanges[j]? = some e' := by
    intro j e' r hj hkind
    rcases concat_cases hj with ⟨-, rfl⟩ | hj
    · exact absurd (isRefresh_iff.mpr ⟨r, hkind⟩) (by simp [hr])
    · exact hj
  constructor
  · exact h.ok
  · exact fun j e' r hj hkind => h.bound j e' r (hold hj hkind) hkind
  · exact fun j k e' e'' r hj hk hkind hkind' =>
      h.once j k e' e'' r (hold hj hkind) (hold hk hkind') hkind hkind'
  · exact fun j e' r hj hkind => h.out j e' r (hold hj hkind) hkind
  · intro j e' hj hr'
    obtain ⟨r, hkind⟩ := isRefresh_iff.mp hr'
    exact h.answered j e' (hold hj hkind) hr'

/-- **The page goes on.**  It sends a refresh only when every earlier one is closed. -/
theorem Wired.page (h : Wired tab exchanges) (jar : Option Token) (htab : tab'.Ok)
    (hstarts : Starts tab.shared tab'.shared) :
    Wired tab' (exchanges ++ started jar tab.shared tab'.shared) ∧
      (started jar tab.shared tab'.shared = [] ∨
        tab.shared.refreshInFlight = none ∧ started jar tab.shared tab'.shared =
          [{ kind := .refresh tab.shared.refreshes.length, cookie := jar }]) := by
  rcases hstarts with ⟨hlength, hsame⟩ | ⟨hidle, hnew⟩
  · have hnil : started jar tab.shared tab'.shared = [] := by simp [started, hlength]
    rw [hnil, List.append_nil]
    refine ⟨⟨htab, ?_, h.once, ?_, h.answered⟩, Or.inl rfl⟩
    · rw [hlength]
      exact h.bound
    · exact fun i e r hi hkind => (h.out i e r hi hkind).trans (hsame r).symm
  · have hone : started jar tab.shared tab'.shared =
        [{ kind := .refresh tab.shared.refreshes.length, cookie := jar }] := by
      simp [started, hnew]
    rw [hone]
    have hrequested : ∀ r < tab.shared.refreshes.length,
        (Requested tab'.shared r ↔ Requested tab.shared r) := by
      intro r hr
      rw [Requested, Requested, hnew, List.getElem?_append_left hr]
    refine ⟨⟨htab, fun i e r hi hkind => ?_, fun i j e e' r hi hj hkind hkind' => ?_,
      fun i e r hi hkind => ?_, fun i e hi hr hclosed => ?_⟩, Or.inr ⟨hidle, rfl⟩⟩
    · rcases concat_cases hi with ⟨-, rfl⟩ | hi
      · obtain rfl := Kind.refresh.inj hkind
        simp [hnew]
      · rw [hnew, List.length_append]
        exact Nat.lt_add_right _ (h.bound i e r hi hkind)
    · rcases concat_cases hi with ⟨rfl, rfl⟩ | hi
      · obtain rfl := Kind.refresh.inj hkind
        rcases concat_cases hj with ⟨rfl, -⟩ | hj
        · rfl
        · exact absurd (h.bound j e' _ hj hkind') (Nat.lt_irrefl _)
      · rcases concat_cases hj with ⟨-, rfl⟩ | hj
        · obtain rfl := Kind.refresh.inj hkind'
          exact absurd (h.bound i e _ hi hkind) (Nat.lt_irrefl _)
        · exact h.once i j e e' r hi hj hkind hkind'
    · rcases concat_cases hi with ⟨-, rfl⟩ | hi
      · obtain rfl := Kind.refresh.inj hkind
        exact iff_of_true rfl (by simp [Requested, hnew])
      · rw [hrequested r (h.bound i e r hi hkind)]
        exact h.out i e r hi hkind
    · rcases concat_cases hi with ⟨-, rfl⟩ | hi
      · exact absurd hclosed (by simp)
      · exact h.answered i e hi hr hclosed

/-- A request is answered. -/
theorem Wired.serve (h : Wired tab exchanges) (hi : exchanges[i]? = some e) {answer : Option Answer}
    (hanswer : answer ≠ none) : Wired tab (exchanges.set i { e with served := answer }) := by
  have hold : ∀ {j : Nat} {e' : Exchange},
      (exchanges.set i { e with served := answer })[j]? = some e' →
      ∃ e₀, exchanges[j]? = some e₀ ∧ e'.kind = e₀.kind ∧ e'.closed = e₀.closed ∧
        (e'.served = e₀.served ∨ e'.served ≠ none) := by
    intro j e' hj
    rcases set_cases hj with ⟨rfl, rfl⟩ | ⟨-, hj⟩
    · exact ⟨e, hi, rfl, rfl, Or.inr hanswer⟩
    · exact ⟨e', hj, rfl, rfl, Or.inl rfl⟩
  constructor
  · exact h.ok
  · intro j e' r hj hkind
    obtain ⟨e₀, he₀, hkind₀, -⟩ := hold hj
    exact h.bound j e₀ r he₀ (hkind₀ ▸ hkind)
  · intro j k e' e'' r hj hk hkind hkind'
    obtain ⟨e₀, he₀, hkind₀, -⟩ := hold hj
    obtain ⟨e₁, he₁, hkind₁, -⟩ := hold hk
    exact h.once j k e₀ e₁ r he₀ he₁ (hkind₀ ▸ hkind) (hkind₁ ▸ hkind')
  · intro j e' r hj hkind
    obtain ⟨e₀, he₀, hkind₀, hclosed₀, -⟩ := hold hj
    rw [hclosed₀]
    exact h.out j e₀ r he₀ (hkind₀ ▸ hkind)
  · intro j e' hj hr hclosed
    obtain ⟨e₀, he₀, hkind₀, hclosed₀, hserved⟩ := hold hj
    rcases hserved with hsame | hsome
    · rw [hsame]
      obtain ⟨r, hkind⟩ := isRefresh_iff.mp hr
      exact h.answered j e₀ he₀ (isRefresh_iff.mpr ⟨r, hkind₀ ▸ hkind⟩) (hclosed₀ ▸ hclosed)
    · exact hsome

/-- The browser is done with a request: the tab has its response, if it is a refresh. -/
theorem Wired.close (h : Wired tab exchanges) (hi : exchanges[i]? = some e) (htab : tab'.Ok)
    (hlength : tab'.shared.refreshes.length = tab.shared.refreshes.length)
    (hself : ∀ r, e.kind = .refresh r → e.served ≠ none ∧ ¬ Requested tab'.shared r)
    (hothers : ∀ r, e.kind ≠ .refresh r → (Requested tab'.shared r ↔ Requested tab.shared r)) :
    Wired tab' (exchanges.set i { e with closed := true }) := by
  have hold : ∀ {j : Nat} {e' : Exchange},
      (exchanges.set i { e with closed := true })[j]? = some e' →
      (j = i ∧ e' = { e with closed := true }) ∨ (j ≠ i ∧ exchanges[j]? = some e') := set_cases
  have hkind : ∀ {j : Nat} {e' : Exchange},
      (exchanges.set i { e with closed := true })[j]? = some e' →
      ∃ e₀, exchanges[j]? = some e₀ ∧ e'.kind = e₀.kind := by
    intro j e' hj
    rcases hold hj with ⟨rfl, rfl⟩ | ⟨-, hj⟩
    · exact ⟨e, hi, rfl⟩
    · exact ⟨e', hj, rfl⟩
  constructor
  · exact htab
  · intro j e' r hj hrefresh
    obtain ⟨e₀, he₀, hkind₀⟩ := hkind hj
    rw [hlength]
    exact h.bound j e₀ r he₀ (hkind₀ ▸ hrefresh)
  · intro j k e' e'' r hj hk hrefresh hrefresh'
    obtain ⟨e₀, he₀, hkind₀⟩ := hkind hj
    obtain ⟨e₁, he₁, hkind₁⟩ := hkind hk
    exact h.once j k e₀ e₁ r he₀ he₁ (hkind₀ ▸ hrefresh) (hkind₁ ▸ hrefresh')
  · intro j e' r hj hrefresh
    rcases hold hj with ⟨rfl, rfl⟩ | ⟨hne, hj⟩
    · exact iff_of_false (by simp) (hself r hrefresh).2
    · have hother : e.kind ≠ .refresh r := fun hsame => hne (h.once j i e' e r hj hi hrefresh hsame)
      exact (h.out j e' r hj hrefresh).trans (hothers r hother).symm
  · intro j e' hj hr hclosed
    rcases hold hj with ⟨rfl, rfl⟩ | ⟨-, hj⟩
    · obtain ⟨r, hrefresh⟩ := isRefresh_iff.mp hr
      exact (hself r hrefresh).1
    · exact h.answered j e' hj hr hclosed

/-- The response to a request arrives. -/
theorem Wired.receive (h : Wired tab exchanges) (hi : exchanges[i]? = some e)
    (hserved : e.served ≠ none) (hreceive : tabReceives tab e = some tab') :
    Wired tab' (exchanges.set i { e with closed := true }) := by
  have hreply : ∀ (r : Nat) (token : Option String), e.kind = .refresh r →
      tab.step (.reply r token) = some tab' →
        Wired tab' (exchanges.set i { e with closed := true }) := by
    intro r token hkind hstep
    obtain ⟨-, hself, hothers, hlength⟩ := reply_requested hstep
    refine h.close hi (Client.step_ok h.ok hstep) hlength (fun r' hr' => ?_) fun r' hr' => ?_
    · obtain rfl := Kind.refresh.inj (hkind.symm.trans hr')
      exact ⟨hserved, hself⟩
    · exact hothers r' fun heq => hr' (heq ▸ hkind)
  have hnot : (∀ r, e.kind ≠ .refresh r) → tab = tab' →
      Wired tab' (exchanges.set i { e with closed := true }) := by
    rintro hno rfl
    exact h.close hi h.ok rfl (fun r hr => absurd hr (hno r)) fun r _ => Iff.rfl
  unfold tabReceives at hreceive
  split at hreceive
  · rename_i r tokens hkind _
    exact hreply r _ hkind hreceive
  · rename_i r hkind _
    exact hreply r _ hkind hreceive
  · rename_i hno _
    exact hnot hno (Option.some.inj hreceive)

/-- A request that is no refresh is lost. -/
theorem Wired.lose (h : Wired tab exchanges) (hi : exchanges[i]? = some e)
    (hr : e.isRefresh = false) (hlose : tabLoses tab e = some tab') :
    Wired tab' (exchanges.set i { e with closed := true }) := by
  have hno : ∀ r, e.kind ≠ .refresh r := fun r hr' =>
    absurd (isRefresh_iff.mpr ⟨r, hr'⟩) (by simp [hr])
  unfold tabLoses at hlose
  split at hlose
  · rename_i r hkind
    exact absurd hkind (hno r)
  · obtain rfl := Option.some.inj hlose
    exact h.close hi h.ok rfl (fun r hr => absurd hr (hno r)) fun r _ => Iff.rfl

end Wiring

/-! ## 4. Where the tokens are -/

/-- Every token that the browser holds came with an answer of its own, and what is in the jar or
went out as a cookie came with one that has arrived. -/
structure Tokens (jar : Option Token) (exchanges : List Exchange) (n : Nat) : Prop where
  lt : ∀ (i : Nat) (e : Exchange) (k : Token), exchanges[i]? = some e → e.token? = some k → k < n
  distinct : ∀ (i j : Nat) (e e' : Exchange) (k : Token), exchanges[i]? = some e →
    exchanges[j]? = some e' → e.token? = some k → e'.token? = some k → i = j
  jar : ∀ k, jar = some k → ∃ (i : Nat) (e : Exchange), exchanges[i]? = some e ∧
    e.closed = true ∧ e.token? = some k
  cookie : ∀ (j : Nat) (e' : Exchange) (k : Token), exchanges[j]? = some e' →
    e'.cookie = some k → ∃ (i : Nat) (e : Exchange), exchanges[i]? = some e ∧
      e.closed = true ∧ e.token? = some k

section Tokens

variable {jar jar' : Option Token} {exchanges : List Exchange} {e e' : Exchange} {i j n : Nat}

/-- A token that has arrived stays where it is when a request joins, ... -/
theorem arrived_concat {k : Token} (h : ∃ (i : Nat) (e : Exchange), exchanges[i]? = some e ∧
    e.closed = true ∧ e.token? = some k) (new : List Exchange) :
    ∃ (i : Nat) (e : Exchange), (exchanges ++ new)[i]? = some e ∧ e.closed = true ∧
      e.token? = some k := by
  obtain ⟨i, e, hi, hrest⟩ := h
  refine ⟨i, e, ?_, hrest⟩
  rw [List.getElem?_append_left (List.getElem?_eq_some_iff.mp hi).1]
  exact hi

/-- ... and when one moves on that had none, or is closed. -/
theorem arrived_set {k : Token} (h : ∃ (i : Nat) (e : Exchange), exchanges[i]? = some e ∧
    e.closed = true ∧ e.token? = some k) (hi : exchanges[i]? = some e)
    (hkeep : e.token? = some k → e'.token? = some k ∧ e'.closed = true) :
    ∃ (j : Nat) (e₀ : Exchange), (exchanges.set i e')[j]? = some e₀ ∧ e₀.closed = true ∧
      e₀.token? = some k := by
  obtain ⟨j, e₀, hj, hclosed, htoken⟩ := h
  by_cases hsame : j = i
  · subst hsame
    obtain rfl := Option.some.inj (hi.symm.trans hj)
    exact ⟨j, e', set_self hi, (hkeep htoken).2, (hkeep htoken).1⟩
  · exact ⟨j, e₀, (set_other hsame).trans hj, hclosed, htoken⟩

theorem Tokens.mono {m : Nat} (h : Tokens jar exchanges n) (hm : n ≤ m) : Tokens jar exchanges m :=
  ⟨fun i e k hi hk => Nat.lt_of_lt_of_le (h.lt i e k hi hk) hm, h.distinct, h.jar, h.cookie⟩

/-- A request goes out with the cookie of the moment. -/
theorem Tokens.concat (h : Tokens jar exchanges n) (hcookie : e.cookie = jar)
    (hserved : e.token? = none) : Tokens jar (exchanges ++ [e]) n := by
  have hold : ∀ {i : Nat} {e' : Exchange} {k : Token}, (exchanges ++ [e])[i]? = some e' →
      e'.token? = some k → exchanges[i]? = some e' := by
    intro i e' k hi hk
    rcases concat_cases hi with ⟨-, rfl⟩ | hi
    · exact absurd (hserved.symm.trans hk) (by simp)
    · exact hi
  constructor
  · exact fun i e' k hi hk => h.lt i e' k (hold hi hk) hk
  · exact fun i j e' e'' k hi hj hk hk' => h.distinct i j e' e'' k (hold hi hk) (hold hj hk') hk hk'
  · exact fun k hk => arrived_concat (h.jar k hk) _
  · intro j e' k hj hk
    rcases concat_cases hj with ⟨-, rfl⟩ | hj
    · exact arrived_concat (h.jar k (hcookie.symm.trans hk)) _
    · exact arrived_concat (h.cookie j e' k hj hk) _

/-- The server answers, with the next token or with none. -/
theorem Tokens.serve {served : Option Answer} {m : Nat} (h : Tokens jar exchanges n) (hm : n ≤ m)
    (hi : exchanges[i]? = some e) (hnone : e.served = none)
    (hnew : ∀ k, Exchange.token? { e with served := served } = some k → k = n ∧ n < m) :
    Tokens jar (exchanges.set i { e with served := served }) m := by
  have hempty : ∀ k : Token, e.token? ≠ some k := by simp [Exchange.token?, hnone]
  have hkeep : ∀ k : Token, e.token? = some k →
      Exchange.token? { e with served := served } = some k ∧ e.closed = true :=
    fun k hk => absurd hk (hempty k)
  constructor
  · intro j e' k hj hk
    rcases set_cases hj with ⟨-, rfl⟩ | ⟨-, hj⟩
    · obtain ⟨rfl, hlt⟩ := hnew k hk
      exact hlt
    · exact Nat.lt_of_lt_of_le (h.lt j e' k hj hk) hm
  · intro j₁ j₂ e₁ e₂ k h₁ h₂ hk₁ hk₂
    rcases set_cases h₁ with ⟨rfl, rfl⟩ | ⟨-, hold₁⟩
    · rcases set_cases h₂ with ⟨rfl, -⟩ | ⟨-, hold₂⟩
      · rfl
      · exact absurd (hnew k hk₁).1 (Nat.ne_of_lt (h.lt j₂ e₂ k hold₂ hk₂))
    · rcases set_cases h₂ with ⟨rfl, rfl⟩ | ⟨-, hold₂⟩
      · exact absurd (hnew k hk₂).1 (Nat.ne_of_lt (h.lt j₁ e₁ k hold₁ hk₁))
      · exact h.distinct j₁ j₂ e₁ e₂ k hold₁ hold₂ hk₁ hk₂
  · exact fun k hk => arrived_set (h.jar k hk) hi (hkeep k)
  · intro j e' k hj hk
    rcases set_cases hj with ⟨rfl, rfl⟩ | ⟨-, hj⟩
    · exact arrived_set (h.cookie j e k hi hk) hi (hkeep k)
    · exact arrived_set (h.cookie j e' k hj hk) hi (hkeep k)

/-- The browser is done with a request, and the jar is as it was, empty, or has its token. -/
theorem Tokens.close (h : Tokens jar exchanges n) (hi : exchanges[i]? = some e)
    (hjar : ∀ k, jar' = some k → jar = some k ∨ e.token? = some k) :
    Tokens jar' (exchanges.set i { e with closed := true }) n := by
  have hold : ∀ {j : Nat} {e' : Exchange},
      (exchanges.set i { e with closed := true })[j]? = some e' →
      ∃ e₀, exchanges[j]? = some e₀ ∧ e'.token? = e₀.token? ∧ e'.cookie = e₀.cookie := by
    intro j e' hj
    rcases set_cases hj with ⟨rfl, rfl⟩ | ⟨-, hj⟩
    · exact ⟨e, hi, rfl, rfl⟩
    · exact ⟨e', hj, rfl, rfl⟩
  constructor
  · intro j e' k hj hk
    obtain ⟨e₀, he₀, htoken, -⟩ := hold hj
    exact h.lt j e₀ k he₀ (htoken ▸ hk)
  · intro j₁ j₂ e₁ e₂ k h₁ h₂ hk₁ hk₂
    obtain ⟨e₀, he₀, htoken, -⟩ := hold h₁
    obtain ⟨e₀', he₀', htoken', -⟩ := hold h₂
    exact h.distinct j₁ j₂ e₀ e₀' k he₀ he₀' (htoken ▸ hk₁) (htoken' ▸ hk₂)
  · intro k hk
    rcases hjar k hk with hold' | hnew
    · exact arrived_set (h.jar k hold') hi fun hk => ⟨hk, rfl⟩
    · exact ⟨i, _, set_self hi, rfl, hnew⟩
  · intro j e' k hj hk
    obtain ⟨e₀, he₀, -, hcookie⟩ := hold hj
    exact arrived_set (h.cookie j e₀ k he₀ (hcookie ▸ hk)) hi fun hk => ⟨hk, rfl⟩

/-- **An answer that has not arrived brings a token that nobody has sent.** -/
theorem Tokens.unsent {k k' : Token} (h : Tokens jar exchanges n) (hi : exchanges[i]? = some e)
    (hj : exchanges[j]? = some e') (hopen : e.closed = false) (hk : e.token? = some k)
    (hcookie : e'.cookie = some k') : k ≠ k' := by
  rintro rfl
  obtain ⟨m, e₀, hm, hclosed, htoken⟩ := h.cookie j e' k hj hcookie
  obtain rfl := h.distinct i m e e₀ k hi hm hk htoken
  obtain rfl := Option.some.inj (hi.symm.trans hm)
  exact absurd (hopen.symm.trans hclosed) (by simp)

end Tokens

end AtlasKnowledge.Frontend.Session
