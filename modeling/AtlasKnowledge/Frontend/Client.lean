/-
# One refresh for any number of calls

`api/client.ts` and the request of `streamChat` (`api/sse.ts`): a call sends its request; on a 401
it awaits `refreshSession`, which starts `doRefresh` or shares the one in flight; then it sends
once more, or gives up.  Any number of calls are under way at once, and between two continuations
of one of them any other may run.

A step is what runs without a break: a response arrives, the refresh's promise moves on, or a call
that awaits it resumes.  The `finally` of `refreshSession` is a step of its own, since other calls
may come to `refreshSession` before it.

* `single_flight`: one refresh request is open at most; a call sends twice at most, and then only
  behind a 401 and a refresh that succeeded; no call for `/auth/` awaits a refresh; every refresh
  has a call that awaits it; and no call awaits a refresh that is neither open nor settled.
-/
import AtlasKnowledge.Domain.Document
import AtlasKnowledge.Lib.Assertions
import AtlasKnowledge.Lib.Transition

namespace AtlasKnowledge.Frontend.Client

open Interleave Transition

/-! ## 1. Responses -/

/-- `ApiErrorBody.error`. -/
structure ErrorBody where
  code : Text
  message : Text
  traceId : Option Text := none
  deriving DecidableEq, Repr

/-- A `Response`, as far as the wrapper reads it; `error` is its body, if that is the JSON of an
error, and `hasBody` that `body` is not null. -/
structure Response where
  status : Nat
  statusText : Text := []
  error : Option ErrorBody := none
  hasBody : Bool := true
  deriving DecidableEq, Repr

/-- `res.ok`. -/
def Response.ok (res : Response) : Bool := 200 ≤ res.status ∧ res.status ≤ 299

/-- `ApiError`. -/
structure ApiError where
  status : Nat
  code : Text
  message : Text
  traceId : Option Text := none
  deriving DecidableEq, Repr

/-- `toApiError`. -/
def toApiError (res : Response) : ApiError :=
  match res.error with
  | some body => ⟨res.status, body.code, body.message, body.traceId⟩
  | none => ⟨res.status, "unknown".toList, res.statusText, none⟩

/-- How a call ends; `rejected` is a `fetch` or a `json` that rejects. -/
inductive Result where
  | returned (res : Response)
  | threw (error : ApiError)
  | rejected
  | booted
  deriving DecidableEq, Repr

/-- `parse`. -/
def parse (res : Response) : Result := if res.ok then .returned res else .threw (toApiError res)

/-! ## 2. The tab -/

variable {α : Type}

/-- What `refreshSession` resolves to: true, false, or an exception. -/
inductive Outcome where
  | restored | refused | rejected
  deriving DecidableEq, Repr

/-- Where a `doRefresh` stands; `α` is the type of the access tokens. -/
inductive Refresh (α : Type) where
  /-- The request is out. -/
  | requested
  /-- The response is there, and its JSON is awaited. -/
  | decoding (token : α)
  /-- `doRefresh` has settled, and the `finally` has not run yet. -/
  | resolved (outcome : Outcome)
  /-- The promise of `refreshSession` has settled. -/
  | settled (outcome : Outcome)
  deriving DecidableEq, Repr

/-- The promise has settled. -/
def Refresh.isSettled : Refresh α → Bool
  | .settled _ => true
  | _ => false

/-- The store's token, `refreshInFlight`, every `doRefresh` so far, and how often
`router.push('/login')` was called. -/
structure Tab (α : Type) where
  accessToken : Option α := none
  refreshInFlight : Option Nat := none
  refreshes : List (Refresh α) := []
  redirects : Nat := 0
  deriving DecidableEq, Repr

/-- `refreshSession`, with the position of the promise it returns. -/
def Tab.refreshSession (t : Tab α) : Tab α × Nat :=
  match t.refreshInFlight with
  | some r => (t, r)
  | none =>
    ({ t with
        refreshInFlight := some t.refreshes.length
        refreshes := t.refreshes ++ [.requested] }, t.refreshes.length)

/-- `clear` and `router.push('/login')`. -/
def Tab.giveUp (t : Tab α) : Tab α :=
  { t with accessToken := none, redirects := t.redirects + 1 }

/-! ## 3. Calls -/

/-- `apiFetch` and `apiUpload` with their path, `streamChat`, and the refresh of `main.ts`. -/
inductive Kind where
  | api (path : Text)
  | stream
  | bootstrap
  deriving DecidableEq, Repr

/-- `path.startsWith('/auth/')`. -/
def isAuthPath (path : Text) : Bool := "/auth/".toList.isPrefixOf path

/-- A 401 on the first request leads to `refreshSession`. -/
def Kind.refreshes : Kind → Bool
  | .api path => !isAuthPath path
  | .stream => true
  | .bootstrap => false

/-- The check of the last response: `parse`, or the one in front of a stream's reader. -/
def Kind.check (res : Response) : Kind → Result
  | .stream => if !res.ok || !res.hasBody then .threw (toApiError res) else .returned res
  | .api _ | .bootstrap => parse res

/-- Where a call stands. -/
inductive CallPc where
  /-- A request is out, the first one or the second one. -/
  | sending (retried : Bool)
  /-- `await refreshSession()`, with the response that led there. -/
  | waiting (r : Nat) (res : Option Response)
  | done (result : Result)
  deriving DecidableEq, Repr

/-- A call, with the tokens its requests went out with and the refresh it has awaited. -/
structure Call (α : Type) where
  kind : Kind
  sent : List (Option α) := []
  joined : Option Nat := none
  pc : CallPc
  deriving DecidableEq, Repr

/-- What the environment makes of a call's next step. -/
inductive Choice where
  | respond (res : Response)
  | fail
  | resume
  deriving DecidableEq, Repr

/-- A call resumes behind the refresh it has awaited. -/
def Call.resume (t : Tab α) (c : Call α) (res : Option Response) : Outcome → Tab α × Call α
  | .restored =>
    match c.kind with
    | .bootstrap => (t, { c with pc := .done .booted })
    | _ => (t, { c with sent := c.sent ++ [t.accessToken], pc := .sending true })
  | .refused =>
    match c.kind, res with
    | .api _, some res => (t.giveUp, { c with pc := .done (.threw (toApiError res)) })
    | _, some res => (t, { c with pc := .done (.threw (toApiError res)) })
    | _, none => (t, { c with pc := .done .booted })
  | .rejected => (t, { c with pc := .done .rejected })

/-- One step of a call: `sendWithRefresh`, or the first lines of `streamChat`. -/
def Call.step (t : Tab α) (c : Call α) : Choice → Option (Tab α × Call α)
  | .respond res =>
    match c.pc with
    | .sending retried =>
      if res.status = 401 ∧ retried = false ∧ c.kind.refreshes = true then
        some (t.refreshSession.1, { c with
          joined := some t.refreshSession.2
          pc := .waiting t.refreshSession.2 (some res) })
      else some (t, { c with pc := .done (c.kind.check res) })
    | _ => none
  | .fail =>
    match c.pc with
    | .sending _ => some (t, { c with pc := .done .rejected })
    | _ => none
  | .resume =>
    match c.pc with
    | .waiting r res =>
      match t.refreshes[r]? with
      | some (.settled outcome) => some (c.resume t res outcome)
      | _ => none
    | _ => none

/-! ## 4. The system -/

/-- What happens next in the tab. -/
inductive Label (α : Type) where
  /-- A component calls `apiFetch`, `apiUpload` or `streamChat`, or the page loads. -/
  | call (kind : Kind)
  | act (i : Nat) (c : Choice)
  /-- The response to the refresh: a token, or `!res.ok`. -/
  | reply (r : Nat) (token : Option α)
  /-- The refresh's `fetch` or `json` rejects. -/
  | fail (r : Nat)
  /-- `res.json()` resolves; `setAuth`. -/
  | decode (r : Nat)
  /-- The `finally` of `refreshSession`. -/
  | settle (r : Nat)
  /-- `setAuth` of the login page. -/
  | setAuth (token : α)
  /-- `clear` behind a logout. -/
  | clear
  deriving DecidableEq, Repr

/-- The tab and its calls. -/
abbrev Sys (α : Type) := Par (Tab α) (Call α)

/-- The refresh at this position moves on. -/
def Tab.move (t : Tab α) (r : Nat) (next : Refresh α → Option (Refresh α)) : Option (Tab α) :=
  (t.refreshes[r]?.bind next).map fun p => { t with refreshes := t.refreshes.set r p }

/-- The response to the refresh arrives. -/
def onReply (token : Option α) : Refresh α → Option (Refresh α)
  | .requested => some (match token with
    | some a => .decoding a
    | none => .resolved .refused)
  | _ => none

/-- The refresh rejects. -/
def onFail : Refresh α → Option (Refresh α)
  | .requested => some (.resolved .rejected)
  | .decoding _ => some (.resolved .rejected)
  | _ => none

/-- The refresh's JSON is there. -/
def onDecode : Refresh α → Option (Refresh α)
  | .decoding _ => some (.resolved .restored)
  | _ => none

/-- The promise settles. -/
def onSettle : Refresh α → Option (Refresh α)
  | .resolved outcome => some (.settled outcome)
  | _ => none

/-- The token that the refresh at this position is about to store. -/
def Tab.decoding? (t : Tab α) (r : Nat) : Option α :=
  match t.refreshes[r]? with
  | some (.decoding a) => some a
  | _ => none

/-- The start of a call: its request goes out with the token of the moment. -/
def Sys.open (s : Sys α) (kind : Kind) : Sys α :=
  match kind with
  | .bootstrap =>
    ({ s with shared := s.shared.refreshSession.1 } : Sys α).spawn
      { kind := kind, joined := some s.shared.refreshSession.2,
        pc := .waiting s.shared.refreshSession.2 none }
  | kind => s.spawn { kind := kind, sent := [s.shared.accessToken], pc := .sending false }

/-- One step of the tab. -/
def Sys.step (s : Sys α) : Label α → Option (Sys α)
  | .call kind => some (s.open kind)
  | .act i c => s.act Call.step i c
  | .reply r token => (s.shared.move r (onReply token)).map fun t => { s with shared := t }
  | .fail r => (s.shared.move r onFail).map fun t => { s with shared := t }
  | .decode r => (s.shared.decoding? r).bind fun a => (s.shared.move r onDecode).map fun t =>
    { s with shared := { t with accessToken := some a } }
  | .settle r => (s.shared.move r onSettle).map fun t =>
    { s with shared := { t with refreshInFlight := none } }
  | .setAuth a => some { s with shared := { s.shared with accessToken := some a } }
  | .clear => some { s with shared := { s.shared with accessToken := none } }

/-- The page before anything has run. -/
def start : Sys α := ⟨{}, []⟩

/-! ## 5. The invariant -/

/-- `refreshInFlight` is the one refresh that has not settled. -/
def Tab.Single (t : Tab α) : Prop :=
  ∀ r, t.refreshInFlight = some r ↔ ∃ p, t.refreshes[r]? = some p ∧ p.isSettled = false

/-- The call has sent twice, and the refresh in between gave the tab a token. -/
def Call.Retried (t : Tab α) (c : Call α) : Prop :=
  c.sent.length = 2 ∧ c.kind.refreshes = true ∧
    ∃ r, c.joined = some r ∧ t.refreshes[r]? = some (.settled .restored)

/-- What its place says about a call's requests. -/
def Call.Placed (t : Tab α) (c : Call α) : Prop :=
  match c.pc with
  | .sending false => c.sent.length = 1 ∧ c.joined = none
  | .sending true => c.Retried t
  | .waiting r _ => c.joined = some r ∧
    ((c.kind = .bootstrap ∧ c.sent.length = 0) ∨ (c.kind.refreshes = true ∧ c.sent.length = 1))
  | .done _ => c.sent.length ≤ 1 ∨ c.Retried t

structure Call.Ok (t : Tab α) (c : Call α) : Prop where
  joined : ∀ r, c.joined = some r →
    r < t.refreshes.length ∧ (c.kind.refreshes = true ∨ c.kind = .bootstrap)
  placed : c.Placed t

/-- Refreshes are only added, and a settled one stays as it is. -/
structure Evolves (t t' : Tab α) : Prop where
  length : t.refreshes.length ≤ t'.refreshes.length
  settled : ∀ (r : Nat) (outcome : Outcome), t.refreshes[r]? = some (.settled outcome) →
    t'.refreshes[r]? = some (.settled outcome)

variable {t t' : Tab α} {c c' : Call α} {s s' : Sys α} {l : Label α}

theorem Evolves.of_same (h : t'.refreshes = t.refreshes) : Evolves t t' :=
  ⟨Nat.le_of_eq (by rw [h]), fun r outcome hr => by rwa [h]⟩

theorem Call.Retried.evolve (h : c.Retried t) (he : Evolves t t') : c.Retried t' := by
  obtain ⟨hsent, hkind, r, hr, hsettled⟩ := h
  exact ⟨hsent, hkind, r, hr, he.settled r _ hsettled⟩

/-- What a call relies on survives what the others do. -/
theorem Call.Ok.evolve (h : c.Ok t) (he : Evolves t t') : c.Ok t' := by
  refine ⟨fun r hr => ?_, ?_⟩
  · obtain ⟨hlt, hkind⟩ := h.joined r hr
    exact ⟨Nat.lt_of_lt_of_le hlt he.length, hkind⟩
  · have hplaced := h.placed
    obtain ⟨kind, sent, joined, pc⟩ := c
    cases pc with
    | sending retried =>
      cases retried with
      | false => exact hplaced
      | true => exact Call.Retried.evolve hplaced he
    | waiting r res => exact hplaced
    | done result => exact hplaced.imp_right fun hr => hr.evolve he

/-- A call has sent twice only when it has retried. -/
theorem Call.Ok.sends (h : c.Ok t) : c.sent.length ≤ 1 ∨ c.Retried t := by
  have hplaced := h.placed
  obtain ⟨kind, sent, joined, pc⟩ := c
  cases pc with
  | sending retried =>
    cases retried with
    | false => exact Or.inl (Nat.le_of_eq hplaced.1)
    | true => exact Or.inr hplaced
  | waiting r res =>
    rcases hplaced.2 with ⟨-, hzero⟩ | ⟨-, hone⟩
    · exact Or.inl (Nat.le_succ_of_le (Nat.le_of_eq hzero))
    · exact Or.inl (Nat.le_of_eq hone)
  | done result => exact hplaced

theorem Call.Ok.waits {r : Nat} {res : Option Response} (h : c.Ok t)
    (hpc : c.pc = .waiting r res) : c.joined = some r := by
  have hplaced := h.placed
  unfold Call.Placed at hplaced
  rw [hpc] at hplaced
  exact hplaced.1

/-! ## 6. Refreshes -/

/-- **`refreshSession`** keeps the one refresh, or starts it. -/
theorem refreshSession_spec (ht : t.Single) :
    t.refreshSession.1.Single ∧ Evolves t t.refreshSession.1 ∧
      t.refreshSession.2 < t.refreshSession.1.refreshes.length ∧
      t.refreshSession.1.accessToken = t.accessToken ∧
      ∀ r < t.refreshSession.1.refreshes.length, r < t.refreshes.length ∨
        r = t.refreshSession.2 := by
  unfold Tab.refreshSession
  cases hflight : t.refreshInFlight with
  | some r =>
    obtain ⟨p, hp, -⟩ := (ht r).mp hflight
    exact ⟨ht, .of_same rfl, (List.getElem?_eq_some_iff.mp hp).1, rfl, fun r hr => Or.inl hr⟩
  | none =>
    have hsettled : ∀ (r : Nat) (p : Refresh α), t.refreshes[r]? = some p → p.isSettled = true := by
      intro r p hp
      by_contra hno
      have hnone := (ht r).mpr ⟨p, hp, by simpa using hno⟩
      exact absurd (hflight.symm.trans hnone) (by simp)
    refine ⟨?_, ⟨by simp, fun r outcome hr => ?_⟩, by simp, rfl, fun r hr => ?_⟩
    · intro r
      constructor
      · intro h
        obtain rfl := Option.some.inj h
        exact ⟨.requested, by simp, rfl⟩
      · rintro ⟨p, hp, hopen⟩
        rcases concat_cases hp with ⟨rfl, -⟩ | hold
        · rfl
        · exact absurd (hsettled r p hold) (by simp [hopen])
    · rw [List.getElem?_append_left (List.getElem?_eq_some_iff.mp hr).1]
      exact hr
    · have hlt : r < t.refreshes.length + 1 := by simpa using hr
      exact Nat.lt_or_eq_of_le (Nat.le_of_lt_succ hlt)

/-- A refresh that moves on had not settled; the others stay where they are. -/
theorem move_spec {r : Nat} {next : Refresh α → Option (Refresh α)} (ht : t.Single)
    (h : t.move r next = some t') (hopen : ∀ p p', next p = some p' → p.isSettled = false) :
    ∃ p p', t.refreshes[r]? = some p ∧ next p = some p' ∧ t.refreshInFlight = some r ∧
      t' = { t with refreshes := t.refreshes.set r p' } ∧ Evolves t t' := by
  obtain ⟨p', hbind, rfl⟩ := Option.map_eq_some_iff.mp h
  obtain ⟨p, hp, hnext⟩ := Option.bind_eq_some_iff.mp hbind
  refine ⟨p, p', hp, hnext, (ht r).mpr ⟨p, hp, hopen p p' hnext⟩, rfl, by simp, ?_⟩
  intro r' outcome hr'
  by_cases hsame : r' = r
  · subst hsame
    have hsettled := hopen p p' hnext
    rw [Option.some.inj (hp.symm.trans hr')] at hsettled
    exact absurd hsettled (by simp [Refresh.isSettled])
  · rw [set_other hsame]
    exact hr'

/-- A refresh that moves on without settling stays the one in flight. -/
theorem move_single {r : Nat} {p p' : Refresh α} (ht : t.Single) (hp : t.refreshes[r]? = some p)
    (hflight : t.refreshInFlight = some r) (hopen : p'.isSettled = false) :
    ({ t with refreshes := t.refreshes.set r p' } : Tab α).Single := by
  intro r'
  constructor
  · intro h
    obtain rfl := Option.some.inj (hflight.symm.trans h)
    exact ⟨p', set_self hp, hopen⟩
  · rintro ⟨q, hq, hq'⟩
    rcases set_cases hq with ⟨rfl, -⟩ | ⟨-, hold⟩
    · exact hflight
    · exact (ht r').mpr ⟨q, hold, hq'⟩

/-- With the `finally` nothing is in flight. -/
theorem settle_single {r : Nat} {p' : Refresh α} (ht : t.Single)
    (hflight : t.refreshInFlight = some r) (hsettled : p'.isSettled = true) :
    ({ t with refreshes := t.refreshes.set r p', refreshInFlight := none } : Tab α).Single := by
  intro r'
  constructor
  · intro h
    exact absurd h (by simp)
  · rintro ⟨q, hq, hq'⟩
    rcases set_cases hq with ⟨-, rfl⟩ | ⟨hne, hold⟩
    · exact absurd hsettled (by simp [hq'])
    · exact absurd (Option.some.inj (((ht r').mpr ⟨q, hold, hq'⟩).symm.trans hflight)) hne

theorem onReply_open {token : Option α} {p p' : Refresh α} (h : onReply token p = some p') :
    p.isSettled = false ∧ p'.isSettled = false := by
  cases p with
  | requested =>
    obtain rfl := Option.some.inj h
    cases token <;> exact ⟨rfl, rfl⟩
  | _ => exact absurd h (by simp [onReply])

theorem onFail_open {p p' : Refresh α} (h : onFail p = some p') :
    p.isSettled = false ∧ p'.isSettled = false := by
  cases p with
  | requested =>
    obtain rfl := Option.some.inj h
    exact ⟨rfl, rfl⟩
  | decoding a =>
    obtain rfl := Option.some.inj h
    exact ⟨rfl, rfl⟩
  | _ => exact absurd h (by simp [onFail])

theorem onDecode_open {p p' : Refresh α} (h : onDecode p = some p') :
    p.isSettled = false ∧ p'.isSettled = false := by
  cases p with
  | decoding a =>
    obtain rfl := Option.some.inj h
    exact ⟨rfl, rfl⟩
  | _ => exact absurd h (by simp [onDecode])

theorem onSettle_open {p p' : Refresh α} (h : onSettle p = some p') :
    p.isSettled = false ∧ p'.isSettled = true := by
  cases p with
  | resolved outcome =>
    obtain rfl := Option.some.inj h
    exact ⟨rfl, rfl⟩
  | _ => exact absurd h (by simp [onSettle])

/-! ## 7. One step -/

/-- **A call resumes**: it sends once more behind a refresh that gave a token, and is done
otherwise. -/
theorem resume_spec {res : Option Response} {outcome : Outcome} {r : Nat}
    (hc : c.Placed t) (hpc : c.pc = .waiting r res)
    (hsettled : t.refreshes[r]? = some (.settled outcome))
    (h : c.resume t res outcome = (t', c')) :
    t'.refreshes = t.refreshes ∧ t'.refreshInFlight = t.refreshInFlight ∧ c'.kind = c.kind ∧
      c'.joined = c.joined ∧ c'.Placed t' := by
  obtain ⟨kind, sent, joined, pc⟩ := c
  obtain rfl : pc = .waiting r res := hpc
  obtain ⟨hjoined, hsent⟩ := hc
  have hone : sent.length ≤ 1 := by
    rcases hsent with ⟨-, hzero⟩ | ⟨-, hone⟩
    · exact Nat.le_succ_of_le (Nat.le_of_eq hzero)
    · exact Nat.le_of_eq hone
  cases outcome with
  | restored =>
    rcases hsent with ⟨rfl, -⟩ | ⟨hkind, hlength⟩
    · obtain ⟨rfl, rfl⟩ := Prod.mk.inj h
      exact ⟨rfl, rfl, rfl, rfl, Or.inl hone⟩
    · have hretried : Call.Retried t ⟨kind, sent ++ [t.accessToken], joined, .sending true⟩ :=
        ⟨by simp [hlength], hkind, r, hjoined, hsettled⟩
      cases kind with
      | bootstrap => exact absurd hkind (by simp [Kind.refreshes])
      | _ =>
        obtain ⟨rfl, rfl⟩ := Prod.mk.inj h
        exact ⟨rfl, rfl, rfl, rfl, hretried⟩
  | refused =>
    cases res with
    | none =>
      cases kind <;> obtain ⟨rfl, rfl⟩ := Prod.mk.inj h <;> exact ⟨rfl, rfl, rfl, rfl, Or.inl hone⟩
    | some res =>
      cases kind <;> obtain ⟨rfl, rfl⟩ := Prod.mk.inj h <;> exact ⟨rfl, rfl, rfl, rfl, Or.inl hone⟩
  | rejected =>
    obtain ⟨rfl, rfl⟩ := Prod.mk.inj h
    exact ⟨rfl, rfl, rfl, rfl, Or.inl hone⟩

theorem Tab.Single.of_same (ht : t.Single) (hrefreshes : t'.refreshes = t.refreshes)
    (hflight : t'.refreshInFlight = t.refreshInFlight) : t'.Single := by
  intro r
  rw [hrefreshes, hflight]
  exact ht r

/-- **What a step of a call keeps.**  It joins a refresh once at most. -/
theorem call_step (ht : t.Single) (hc : c.Ok t) {choice : Choice}
    (h : c.step t choice = some (t', c')) :
    t'.Single ∧ Evolves t t' ∧ c'.Ok t' ∧ (∀ r, c.joined = some r → c'.joined = some r) ∧
      ∀ r < t'.refreshes.length, r < t.refreshes.length ∨ c'.joined = some r := by
  obtain ⟨kind, sent, joined, pc⟩ := c
  have hplaced : Call.Placed t ⟨kind, sent, joined, pc⟩ := hc.placed
  cases choice with
  | respond res =>
    cases pc with
    | sending retried =>
      simp only [Call.step] at h
      split at h
      · rename_i hcond
        obtain ⟨-, rfl, hkind⟩ := hcond
        obtain ⟨rfl, rfl⟩ := Prod.mk.inj (Option.some.inj h)
        obtain ⟨hsingle, hevolves, hlt, -, hnew⟩ := refreshSession_spec ht
        obtain ⟨hsent, hnone⟩ : sent.length = 1 ∧ joined = none := hplaced
        refine ⟨hsingle, hevolves, ⟨fun r hr => ?_, rfl, Or.inr ⟨hkind, hsent⟩⟩, ?_,
          fun r hr => ?_⟩
        · obtain rfl := Option.some.inj hr
          exact ⟨hlt, Or.inl hkind⟩
        · simp [hnone]
        · exact (hnew r hr).imp_right fun heq => by rw [heq]
      · obtain ⟨rfl, rfl⟩ := Prod.mk.inj (Option.some.inj h)
        refine ⟨ht, .of_same rfl, ⟨hc.joined, ?_⟩, fun r hr => hr, fun r hr => Or.inl hr⟩
        cases retried with
        | false => exact Or.inl (Nat.le_of_eq hplaced.1)
        | true => exact Or.inr hplaced
    | _ => exact absurd h (by simp [Call.step])
  | fail =>
    cases pc with
    | sending retried =>
      obtain ⟨rfl, rfl⟩ := Prod.mk.inj (Option.some.inj h)
      refine ⟨ht, .of_same rfl, ⟨hc.joined, ?_⟩, fun r hr => hr, fun r hr => Or.inl hr⟩
      cases retried with
      | false => exact Or.inl (Nat.le_of_eq hplaced.1)
      | true => exact Or.inr hplaced
    | _ => exact absurd h (by simp [Call.step])
  | resume =>
    cases pc with
    | waiting r res =>
      simp only [Call.step] at h
      split at h
      · rename_i outcome hsettled
        obtain ⟨hrefreshes, hflight, hkind, hjoined, hplaced'⟩ :=
          resume_spec hplaced rfl hsettled (Option.some.inj h)
        refine ⟨ht.of_same hrefreshes hflight, .of_same hrefreshes, ⟨fun r hr => ?_, hplaced'⟩,
          fun r hr => hjoined.trans hr, fun r hr => Or.inl (by rwa [← hrefreshes])⟩
        rw [hrefreshes, hkind]
        exact hc.joined r (hjoined.symm.trans hr)
      · exact absurd h (by simp)
    | _ => exact absurd h (by simp [Call.step])

/-- What holds of the tab between the steps. -/
structure Sys.Ok (s : Sys α) : Prop where
  holds : s.Holds Tab.Single Call.Ok
  awaited : ∀ r < s.shared.refreshes.length, ∃ c ∈ s.parties, c.joined = some r

/-- A step of the refresh keeps every call as it is. -/
theorem refresh_step (hs : s.Ok) (hsingle : t.Single) (hevolves : Evolves s.shared t)
    (hlength : t.refreshes.length = s.shared.refreshes.length) :
    Sys.Ok { s with shared := t } where
  holds := hs.holds.env hsingle fun c hc => hc.evolve hevolves
  awaited := by
    intro r hr
    exact hs.awaited r (by rwa [← hlength])

theorem open_step (hs : s.Ok) (kind : Kind) : (s.open kind).Ok := by
  have hsend : Sys.Ok (s.spawn
      { kind := kind, sent := [s.shared.accessToken], pc := .sending false }) := by
    refine ⟨hs.holds.spawn ⟨fun r hr => absurd hr (by simp), rfl, rfl⟩, fun r hr => ?_⟩
    obtain ⟨c, hc, hjoined⟩ := hs.awaited r hr
    exact ⟨c, List.mem_append_left _ hc, hjoined⟩
  cases kind with
  | api path => exact hsend
  | stream => exact hsend
  | bootstrap =>
    obtain ⟨hsingle, hevolves, hlt, -, hnew⟩ := refreshSession_spec hs.holds.shared
    refine ⟨(hs.holds.env hsingle fun c hc => hc.evolve hevolves).spawn ⟨fun r hr => ?_, rfl,
      Or.inl ⟨rfl, rfl⟩⟩, fun r hr => ?_⟩
    · obtain rfl := Option.some.inj hr
      exact ⟨hlt, Or.inr rfl⟩
    · rcases hnew r hr with hold | rfl
      · obtain ⟨c, hc, hjoined⟩ := hs.awaited r hold
        exact ⟨c, List.mem_append_left _ hc, hjoined⟩
      · exact ⟨_, List.mem_append_right _ (List.mem_singleton_self _), rfl⟩

/-- **One step of the tab.** -/
theorem step_ok (hs : s.Ok) (h : s.step l = some s') : s'.Ok := by
  have ht : s.shared.Single := hs.holds.shared
  cases l with
  | call kind =>
    obtain rfl := Option.some.inj h
    exact open_step hs kind
  | act i choice =>
    obtain ⟨c, t, c', hc, hstep, rfl⟩ := Par.act_eq_some.mp h
    have hmem : c ∈ s.parties := List.mem_of_getElem? hc
    obtain ⟨hsingle, hevolves, hok, hkeeps, hnew⟩ := call_step ht (hs.holds.parties c hmem) hstep
    refine ⟨hs.holds.set i hsingle hok fun c hc => hc.evolve hevolves, fun r hr => ?_⟩
    have hself : c' ∈ s.parties.set i c' := List.mem_of_getElem? (set_self hc)
    rcases hnew r hr with hold | hjoined
    · obtain ⟨d, hd, hjoined⟩ := hs.awaited r hold
      obtain ⟨j, hj⟩ := List.mem_iff_getElem?.mp hd
      by_cases hsame : j = i
      · subst hsame
        obtain rfl := Option.some.inj (hc.symm.trans hj)
        exact ⟨c', hself, hkeeps r hjoined⟩
      · exact ⟨d, List.mem_of_getElem? ((set_other hsame).trans hj), hjoined⟩
    · exact ⟨c', hself, hjoined⟩
  | reply r token =>
    obtain ⟨t, hmove, rfl⟩ := Option.map_eq_some_iff.mp h
    obtain ⟨p, p', hp, hnext, hflight, rfl, hevolves⟩ :=
      move_spec ht hmove fun p p' hp => (onReply_open hp).1
    exact refresh_step hs (move_single ht hp hflight (onReply_open hnext).2) hevolves (by simp)
  | fail r =>
    obtain ⟨t, hmove, rfl⟩ := Option.map_eq_some_iff.mp h
    obtain ⟨p, p', hp, hnext, hflight, rfl, hevolves⟩ :=
      move_spec ht hmove fun p p' hp => (onFail_open hp).1
    exact refresh_step hs (move_single ht hp hflight (onFail_open hnext).2) hevolves (by simp)
  | decode r =>
    obtain ⟨a, -, h⟩ := Option.bind_eq_some_iff.mp h
    obtain ⟨t, hmove, rfl⟩ := Option.map_eq_some_iff.mp h
    obtain ⟨p, p', hp, hnext, hflight, rfl, hevolves⟩ :=
      move_spec ht hmove fun p p' hp => (onDecode_open hp).1
    have hsingle := move_single ht hp hflight (onDecode_open hnext).2
    exact refresh_step hs (hsingle.of_same rfl rfl) ⟨hevolves.length, hevolves.settled⟩ (by simp)
  | settle r =>
    obtain ⟨t, hmove, rfl⟩ := Option.map_eq_some_iff.mp h
    obtain ⟨p, p', hp, hnext, hflight, rfl, hevolves⟩ :=
      move_spec ht hmove fun p p' hp => (onSettle_open hp).1
    exact refresh_step hs (settle_single ht hflight (onSettle_open hnext).2)
      ⟨hevolves.length, hevolves.settled⟩ (by simp)
  | setAuth a =>
    obtain rfl := Option.some.inj h
    exact refresh_step hs (ht.of_same rfl rfl) (.of_same rfl) rfl
  | clear =>
    obtain rfl := Option.some.inj h
    exact refresh_step hs (ht.of_same rfl rfl) (.of_same rfl) rfl

theorem start_ok : (start : Sys α).Ok where
  holds := Par.holds_nil fun r => by simp
  awaited := fun r hr => absurd hr (by simp [start])

theorem run_ok {ls : List (Label α)} (hrun : run Sys.step start ls = some s) : s.Ok :=
  run_invariant_of_step (fun _ _ _ => step_ok) start_ok hrun

/-! ## 8. Every run -/

/-- **One refresh for any number of calls.** -/
theorem single_flight {ls : List (Label α)} {s : Sys α} (hrun : run Sys.step start ls = some s) :
    -- one refresh is open at most, and it is the one that `refreshSession` returns
    (∀ r p, s.shared.refreshes[r]? = some p → p.isSettled = false →
      s.shared.refreshSession = (s.shared, r)) ∧
    -- every refresh has a call that has joined it, and that is not one for `/auth/`
    (∀ r < s.shared.refreshes.length, ∃ c ∈ s.parties, c.joined = some r ∧
      (c.kind.refreshes = true ∨ c.kind = .bootstrap)) ∧
    (∀ c ∈ s.parties,
      -- two requests at most, the second one behind a refresh that gave a token
      c.sent.length ≤ 2 ∧
      (c.sent.length = 2 → c.kind.refreshes = true ∧
        ∃ r, c.joined = some r ∧ s.shared.refreshes[r]? = some (.settled .restored)) ∧
      -- what a call waits for is open, or the call can resume
      ∀ r res, c.pc = .waiting r res →
        s.shared.refreshInFlight = some r ∨ (c.step s.shared .resume).isSome = true) := by
  have hs : s.Ok := run_ok hrun
  have ht : s.shared.Single := hs.holds.shared
  refine ⟨fun r p hp hopen => ?_, fun r hr => ?_, fun c hc => ⟨?_, ?_, fun r res hpc => ?_⟩⟩
  · have hflight : s.shared.refreshInFlight = some r := (ht r).mpr ⟨p, hp, hopen⟩
    simp only [Tab.refreshSession, hflight]
  · obtain ⟨c, hc, hjoined⟩ := hs.awaited r hr
    exact ⟨c, hc, hjoined, ((hs.holds.parties c hc).joined r hjoined).2⟩
  · rcases (hs.holds.parties c hc).sends with hone | hretried
    · exact Nat.le_succ_of_le hone
    · exact Nat.le_of_eq hretried.1
  · intro htwo
    rcases (hs.holds.parties c hc).sends with hone | hretried
    · rw [htwo] at hone
      exact absurd hone (by decide)
    · exact hretried.2
  · have hjoined : c.joined = some r := (hs.holds.parties c hc).waits hpc
    have hlt : r < s.shared.refreshes.length := ((hs.holds.parties c hc).joined r hjoined).1
    have hp : s.shared.refreshes[r]? = some s.shared.refreshes[r] := List.getElem?_eq_getElem hlt
    cases hsettled : s.shared.refreshes[r] with
    | settled outcome => exact Or.inr (by simp [Call.step, hpc, hp, hsettled])
    | _ => exact Or.inl ((ht r).mpr ⟨_, hp, by simp [hsettled, Refresh.isSettled]⟩)

/-- Two calls meet a 401 at once: one refresh, and both send again. -/
def sharedRun : List (Label Nat) :=
  [.call .stream, .call (.api "/conversations".toList), .act 0 (.respond { status := 401 }),
    .act 1 (.respond { status := 401 }), .reply 0 (some 7), .decode 0, .settle 0, .act 0 .resume,
    .act 1 .resume]

theorem single_flight_shared :
    ∃ s, run Sys.step start sharedRun = some s ∧ s.shared.refreshes = [.settled .restored] ∧
      ∃ c ∈ s.parties, c.sent = [none, some 7] ∧ c.kind.refreshes = true := by
  have hend : (run Sys.step start sharedRun).map
      (fun s => (s.shared.refreshes, s.parties.map Call.sent)) =
        some ([.settled .restored], [[none, some 7], [none, some 7]]) := by decide
  obtain ⟨s, hs, heq⟩ := Option.map_eq_some_iff.mp hend
  obtain ⟨hrefreshes, hsent⟩ := Prod.mk.inj heq
  have hmem : [none, some 7] ∈ s.parties.map Call.sent := by simp [hsent]
  obtain ⟨c, hc, htwo⟩ := List.mem_map.mp hmem
  exact ⟨s, hs, hrefreshes, c, hc, htwo, (((single_flight hs).2.2 c hc).2.1 (by rw [htwo]; rfl)).1⟩

end AtlasKnowledge.Frontend.Client
