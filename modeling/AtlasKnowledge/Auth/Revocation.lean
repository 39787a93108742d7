/-
# Revoking a family is final, unless a refresh overlaps it

`revoke_family` updates the rows it sees.  A refresh that read its row earlier inserts a sibling
and commits it afterwards: the family is live again.  A refresh that reads between the update
and its commit does the same.

* `revocation_final`: with these two overlaps excluded, a family whose revocation has committed
  never has a live row again, in every run; and from every state in which one of them happens,
  the calls can go on to a live row of a revoked family.
* `not_revocation_final`: one login, one refresh and one logout.
-/
import AtlasKnowledge.Auth.Sessions

namespace AtlasKnowledge.Auth

open Interleave Transition

/-! ## 1. The property and the overlaps -/

/-- A family that a committed transaction has revoked has no live row. -/
def Sys.RevocationFinal (s : Sys) : Prop :=
  ∀ (i : Nat) (c : Call) (familyId : Id), s.parties[i]? = some c →
    c.pc.committed = .revoked familyId →
    ∀ r ∈ s.shared.tokens.rows, r.familyId = familyId → r.revokedAt ≠ none

/-- The family that the next statement revokes. -/
def Pc.revokes : Pc → Option Id
  | .revoking _ familyId _ => some familyId
  | _ => none

/-- A refresh of an active user holds a row of the family. -/
def Sys.HeldFamily (s : Sys) (familyId : Id) : Prop :=
  ∃ d ∈ s.parties, ∃ row ∈ d.pc.held, row.familyId = familyId ∧ s.shared.active row.userId = true

instance (s : Sys) (familyId : Id) : Decidable (s.HeldFamily familyId) :=
  inferInstanceAs (Decidable (∃ d ∈ s.parties, ∃ row ∈ d.pc.held,
    row.familyId = familyId ∧ s.shared.active row.userId = true))

/-- The update of `revoke_family` has run for the family, and its commit has not. -/
def Sys.RevokingFamily (s : Sys) (familyId : Id) : Prop :=
  ∃ d ∈ s.parties, d.pc.uncommittedRevoke = some familyId

instance (s : Sys) (familyId : Id) : Decidable (s.RevokingFamily familyId) :=
  inferInstanceAs (Decidable (∃ d ∈ s.parties, d.pc.uncommittedRevoke = some familyId))

/-- The step revokes a family of which a refresh holds a row, or lets a refresh go on with a row
of a family whose revocation has not committed. -/
def RacesRevoke (s : Sys) : Label → Prop
  | .act i (.go now) => ∃ c ∈ s.parties[i]?,
    (∃ familyId ∈ c.pc.revokes, s.HeldFamily familyId) ∨
      ∃ row ∈ c.pc.reads s.shared now,
        s.shared.active row.userId = true ∧ s.RevokingFamily row.familyId
  | _ => False

/-- The condition on a step: a refresh and a revocation of one family do not overlap. -/
def NoOverlap (s : Sys) (l : Label) : Prop := ¬ RacesRevoke s l

instance (s : Sys) : DecidablePred (RacesRevoke s)
  | .act i (.go now) => inferInstanceAs (Decidable (∃ c ∈ s.parties[i]?,
      (∃ familyId ∈ c.pc.revokes, s.HeldFamily familyId) ∨
        ∃ row ∈ c.pc.reads s.shared now,
          s.shared.active row.userId = true ∧ s.RevokingFamily row.familyId))
  | .act _ .abort | .call _ => .isFalse id

instance (s : Sys) (l : Label) : Decidable (NoOverlap s l) :=
  inferInstanceAs (Decidable (¬ RacesRevoke s l))

/-! ## 2. The invariant -/

/-- The family that a call has revoked, and the rows its commit is still to revoke. -/
def Pc.covers : Pc → Option (Id × List Id)
  | .revokeCommit _ familyId ids _ => some (familyId, ids)
  | .done _ (.revoked familyId) => some (familyId, [])
  | _ => none

/-- No refresh holds a row of the family, and its live rows are among the given ones. -/
structure Covered (s : Sys) (familyId : Id) (ids : List Id) : Prop where
  held : ∀ j row, Holds s j row → row.familyId ≠ familyId
  live : ∀ r ∈ s.shared.tokens.rows, r.familyId = familyId → r.revokedAt = none → r.id ∈ ids

/-- What every family under revocation keeps from its update on. -/
def Closed (s : Sys) : Prop :=
  ∀ (i : Nat) (c : Call) (familyId : Id) (ids : List Id), s.parties[i]? = some c →
    c.pc.covers = some (familyId, ids) → Covered s familyId ids

theorem Closed.final {s : Sys} (h : Closed s) : s.RevocationFinal := by
  intro i c familyId hc hcommitted r hr hfamily hlive
  have hcovers : c.pc.covers = some (familyId, []) := by
    obtain ⟨serial, pc⟩ := c
    cases pc with
    | done answer committed =>
      obtain rfl : committed = .revoked familyId := hcommitted
      rfl
    | _ => exact nomatch hcommitted
  exact absurd ((h i c familyId [] hc hcovers).live r hr hfamily hlive) (List.not_mem_nil)

theorem start_closed (users : List User) : Closed (start users) := by
  intro i c familyId ids hc
  simp [start] at hc

variable {cfg : Config} {db : Db} {serial : Nat} {pc : Pc} {familyId : Id} {ids : List Id}

/-- A call that revokes nothing covers nothing. -/
theorem covers_eq_none (hrevokes : pc.uncommittedRevoke = none)
    (hcommits : ∀ familyId, pc.committed ≠ .revoked familyId) : pc.covers = none := by
  cases pc with
  | revokeCommit at_ familyId ids answer => exact nomatch hrevokes
  | done answer committed =>
    cases committed with
    | revoked familyId => exact absurd rfl (hcommits familyId)
    | _ => rfl
  | _ => rfl

/-- A family that is covered is in use. -/
theorem used_of_covers (hl : Local db serial pc) (h : pc.covers = some (familyId, ids)) :
    Used db.tokens familyId := by
  cases pc with
  | revokeCommit at_ f ids' answer =>
    obtain ⟨rfl, -⟩ := Prod.mk.inj (Option.some.inj h)
    exact hl
  | done answer committed =>
    cases committed with
    | revoked f =>
      obtain ⟨rfl, -⟩ := Prod.mk.inj (Option.some.inj h)
      exact hl
    | _ => exact nomatch h
  | _ => exact nomatch h

/-- A family that is covered is being revoked, or has been. -/
theorem covers_cases (h : pc.covers = some (familyId, ids)) :
    pc.uncommittedRevoke = some familyId ∨ ids = [] := by
  cases pc with
  | revokeCommit at_ f ids' answer =>
    obtain ⟨rfl, -⟩ := Prod.mk.inj (Option.some.inj h)
    exact Or.inl rfl
  | done answer committed =>
    cases committed with
    | revoked f =>
      obtain ⟨-, rfl⟩ := Prod.mk.inj (Option.some.inj h)
      exact Or.inr rfl
    | _ => exact nomatch h
  | _ => exact nomatch h

/-- A family stays covered while no call takes up a row of it and no row of it comes alive. -/
theorem Covered.mono {s s' : Sys} (h : Covered s familyId ids)
    (hheld : ∀ j row, Holds s' j row → row.familyId = familyId → Holds s j row)
    (hlive : ∀ r ∈ s'.shared.tokens.rows, r.familyId = familyId → r.revokedAt = none →
      r ∈ s.shared.tokens.rows) : Covered s' familyId ids where
  held := fun j row hj hfamily => h.held j row (hheld j row hj hfamily) hfamily
  live := fun r hr hfamily hrlive => h.live r (hlive r hr hfamily hrlive) hfamily hrlive

/-- After a step of the call at `i`, what a call covers it covered before, or it is the call
itself. -/
theorem closed_set {s : Sys} {db : Db} {i : Nat} {c : Call} {pc : Pc}
    (hself : ∀ familyId ids, pc.covers = some (familyId, ids) →
      Covered ⟨db, s.parties.set i { c with pc := pc }⟩ familyId ids)
    (hother : ∀ j d familyId ids, j ≠ i → s.parties[j]? = some d →
      d.pc.covers = some (familyId, ids) →
      Covered ⟨db, s.parties.set i { c with pc := pc }⟩ familyId ids) :
    Closed ⟨db, s.parties.set i { c with pc := pc }⟩ := by
  intro j d familyId ids hd hcovers
  rcases set_cases hd with ⟨-, rfl⟩ | ⟨hne, hold⟩
  · exact hself familyId ids hcovers
  · exact hother j d familyId ids hne hold hcovers

/-! ## 3. The step -/

theorem closed_call {s : Sys} (hi : Closed s) (request : Request) :
    Closed (s.spawn { serial := s.parties.length, pc := request.start }) := by
  have hstart : request.start.covers = none ∧ request.start.held = none := by
    cases request <;> exact ⟨rfl, rfl⟩
  intro i c familyId ids hc hcovers
  rcases concat_cases hc with ⟨-, rfl⟩ | hold
  · rw [hstart.1] at hcovers
    exact nomatch hcovers
  · refine (hi i c familyId ids hold hcovers).mono ?_ (fun r hr _ _ => hr)
    rintro j row ⟨⟨d, hd, hheld⟩, hact⟩ -
    rcases concat_cases hd with ⟨-, rfl⟩ | hd
    · rw [hstart.2] at hheld
      exact nomatch hheld
    · exact ⟨⟨d, hd, hheld⟩, hact⟩

/-- A step that leaves the tables alone, takes up no row and revokes nothing. -/
theorem closed_move {s : Sys} {i : Nat} {c : Call} (hi : Closed s) (hc : s.parties[i]? = some c)
    (hheld : pc.held = none ∨ pc.held = c.pc.held) (hrevokes : pc.uncommittedRevoke = none)
    (hcommits : pc.committed = .nothing) :
    Closed ⟨s.shared, s.parties.set i { c with pc := pc }⟩ := by
  refine closed_set ?_ ?_
  · intro f ids hcovers
    have hnone : pc.covers = none :=
      covers_eq_none hrevokes (fun f heq => nomatch hcommits.symm.trans heq)
    rw [hnone] at hcovers
    exact nomatch hcovers
  · intro j d f ids _ hd hcovers
    refine (hi j d f ids hd hcovers).mono ?_ (fun r hr _ _ => hr)
    intro k row hk _
    rcases holds_set (fun _ => rfl) hk with ⟨-, hold⟩ | ⟨rfl, hpc, hact⟩
    · exact hold
    · rcases hheld with hnone | hsame
      · rw [hnone] at hpc
        exact nomatch hpc
      · exact ⟨⟨c, hc, by rw [← hsame, hpc]⟩, hact⟩

/-- A refresh that goes on with a row of a family that nobody is revoking.  A family that is
revoked already has no live row to read. -/
theorem closed_read {s : Sys} {i : Nat} {c : Call} {now : Time} {row : TokenRow}
    {userAgent : Option String} (hi : Closed s) (hc : s.parties[i]? = some c)
    (hreads : c.pc.reads s.shared now = some row) (hno : NoOverlap s (.act i (.go now))) :
    Closed ⟨s.shared, s.parties.set i { c with pc := .refreshUser now row userAgent }⟩ := by
  obtain ⟨hrow, hlive, -⟩ := reads_spec hreads
  refine closed_set (fun f ids h => nomatch h) ?_
  intro j d f ids _ hd hcovers
  have hcovered := hi j d f ids hd hcovers
  refine ⟨?_, hcovered.live⟩
  intro k row' hk hfamily
  rcases holds_set (fun _ => rfl) hk with ⟨-, hold⟩ | ⟨-, hpc, hact⟩
  · exact hcovered.held k row' hold hfamily
  · obtain rfl : row = row' := Option.some.inj hpc
    rcases covers_cases hcovers with hrevoking | rfl
    · refine hno ⟨c, hc, Or.inr ⟨row, hreads, hact, d, List.mem_of_getElem? hd, ?_⟩⟩
      rw [hrevoking, hfamily]
    · exact absurd (hcovered.live row hrow hfamily hlive) List.not_mem_nil

/-- The update of `revoke_family`: it sees every live row of the family, and nobody holds one. -/
theorem closed_collect {s : Sys} {i : Nat} {c : Call} {now at_ : Time} {answer : Answer}
    (hi : Closed s) (hc : s.parties[i]? = some c) (hpc : c.pc = .revoking at_ familyId answer)
    (hno : NoOverlap s (.act i (.go now))) :
    Closed ⟨s.shared, s.parties.set i
      { c with pc := .revokeCommit at_ familyId (s.shared.liveIds familyId) answer }⟩ := by
  have hback : ∀ j row, Holds ⟨s.shared, s.parties.set i
      { c with pc := .revokeCommit at_ familyId (s.shared.liveIds familyId) answer }⟩ j row →
      Holds s j row := by
    intro j row hj
    rcases holds_set (fun _ => rfl) hj with ⟨-, hold⟩ | ⟨-, hheld, -⟩
    · exact hold
    · exact nomatch hheld
  refine closed_set ?_ ?_
  · intro f ids hcovers
    obtain ⟨rfl, rfl⟩ := Prod.mk.inj (Option.some.inj hcovers)
    refine ⟨?_, fun r hr hfamily hlive => mem_liveIds.mpr ⟨r, hr, hfamily, hlive, rfl⟩⟩
    intro j row hj hfamily
    obtain ⟨⟨d, hd, hheld⟩, hact⟩ := hback j row hj
    refine hno ⟨c, hc, Or.inl ⟨familyId, by rw [hpc]; rfl, d, List.mem_of_getElem? hd, ?_⟩⟩
    exact ⟨row, hheld, hfamily, hact⟩
  · intro j d f ids _ hd hcovers
    exact (hi j d f ids hd hcovers).mono (fun k row hk _ => hback k row hk)
      (fun r hr _ _ => hr)

/-- The commit of `revoke_family`: of the family's live rows none is left. -/
theorem closed_revoke {s : Sys} {i : Nat} {c : Call} {at_ : Time} {answer : Answer}
    (hi : Closed s) (hc : s.parties[i]? = some c)
    (hpc : c.pc = .revokeCommit at_ familyId ids answer) :
    Closed ⟨{ s.shared with tokens := s.shared.tokens.revoke ids at_ },
      s.parties.set i { c with pc := .done answer (.revoked familyId) }⟩ := by
  have hactive : ∀ userId, Db.active { s.shared with tokens := s.shared.tokens.revoke ids at_ }
      userId = s.shared.active userId := fun _ => rfl
  have hback : ∀ j row, Holds ⟨{ s.shared with tokens := s.shared.tokens.revoke ids at_ },
      s.parties.set i { c with pc := .done answer (.revoked familyId) }⟩ j row →
      Holds s j row := fun j row hj => (holds_commit hactive hj).2
  refine closed_set ?_ ?_
  · intro f ids' hcovers
    obtain ⟨rfl, rfl⟩ := Prod.mk.inj (Option.some.inj hcovers)
    have hcovered := hi i c familyId ids hc (by rw [hpc]; rfl)
    refine ⟨fun j row hj => hcovered.held j row (hback j row hj), ?_⟩
    intro r hr hfamily hlive
    obtain ⟨hold, hleft⟩ := live_of_revoke hr hlive
    exact absurd (hcovered.live r hold hfamily hlive) hleft
  · intro j d f ids' _ hd hcovers
    exact (hi j d f ids' hd hcovers).mono (fun k row hk _ => hback k row hk)
      (fun r hr _ hlive => (live_of_revoke hr hlive).1)

/-- The commit of a login: the new family is not one that is covered. -/
theorem closed_login {s : Sys} {i : Nat} {c : Call} {user : User} {newHash : Option String}
    {new : TokenRow} {tokens : TokenTable} {answer : Answer} (hs : Base s) (hi : Closed s)
    (hc : s.parties[i]? = some c) (hdone : c.pc.isDone = false)
    (hnew : Issued i i new) (htokens : s.shared.tokens.insert? new = some tokens) :
    Closed ⟨{ s.shared.rehash user.id newHash with tokens := tokens },
      s.parties.set i { c with pc := .done answer (.opened new.familyId) }⟩ := by
  have hactive : ∀ userId, Db.active { s.shared.rehash user.id newHash with tokens := tokens }
      userId = s.shared.active userId := fun userId => rehash_active user.id userId newHash
  refine closed_set (fun f ids h => nomatch h) ?_
  intro j d f ids _ hd hcovers
  have hused : Used s.shared.tokens f := used_of_covers (hs.knows j d hd) hcovers
  refine (hi j d f ids hd hcovers).mono ?_ ?_
  · intro k row hk _
    exact (holds_commit hactive hk).2
  · intro r hr hfamily _
    rcases (mem_insert htokens).mp hr with hold | rfl
    · exact hold
    · exact absurd (hfamily.symm.trans hnew.familyId) (hs.used_ne hc hdone hused)

/-- The commit of an exchange: the family of the row it held is not one that is covered. -/
theorem closed_exchange {s : Sys} {i : Nat} {c : Call} {at_ : Time} {row new : TokenRow}
    {tokens : TokenTable} {answer : Answer} (hi : Closed s) (hholds : Holds s i row)
    (hnew : Issued serial row.familyId new) (htokens : s.shared.tokens.insert? new = some tokens) :
    Closed ⟨{ s.shared with tokens := tokens.replace row.id at_ new.id },
      s.parties.set i { c with pc := .done answer (.exchanged row.id new.id) }⟩ := by
  have hactive : ∀ userId, Db.active { s.shared with tokens := tokens.replace row.id at_ new.id }
      userId = s.shared.active userId := fun _ => rfl
  refine closed_set (fun f ids h => nomatch h) ?_
  intro j d f ids _ hd hcovers
  have hcovered := hi j d f ids hd hcovers
  refine hcovered.mono ?_ ?_
  · intro k row' hk _
    exact (holds_commit hactive hk).2
  · intro r hr hfamily hlive
    rcases live_of_exchange htokens hr hlive with ⟨hold, -⟩ | rfl
    · exact hold
    · exact absurd (hnew.familyId.symm.trans hfamily) (hcovered.held i row hholds)

/-- **Every step without an overlap keeps the invariant.** -/
theorem closed_step {s s' : Sys} {l : Label} (hs : Base s) (hi : Closed s)
    (hno : NoOverlap s l) (h : s.step cfg l = some s') : Closed s' := by
  cases step_cases h with
  | call request => exact closed_call hi request
  | @act i choice c db pc hc hstep =>
    obtain ⟨serial, pc₀⟩ := c
    obtain rfl : serial = i := hs.serial i _ hc
    have hl : Local s.shared serial pc₀ := hs.knows _ _ hc
    cases stepPc_effect hstep with
    | login htokens => exact closed_login hs hi hc rfl hl htokens
    | exchange htokens =>
      exact closed_exchange hi ⟨⟨_, hc, rfl⟩, hl.2.1⟩ hl.2.2 htokens
    | revoke => exact closed_revoke hi hc rfl
    | read hreads => exact closed_read hi hc hreads hno
    | collect => exact closed_collect hi hc rfl hno
    | move held revokes commits => exact closed_move hi hc held revokes commits

/-! ## 4. The overlaps always do harm -/

/-- A refresh that holds a row of a revoked family brings the family back to life. -/
theorem revived {s : Sys} (hs : Base s) {i j : Nat} {c d : Call} {row : TokenRow} (hij : i ≠ j)
    (hc : s.parties[i]? = some c) (hrevoked : c.pc.committed = .revoked row.familyId)
    (hd : s.parties[j]? = some d) (hheld : d.pc.held = some row)
    (hact : s.shared.active row.userId = true) :
    ∃ ls s', run (Sys.step cfg) s ls = some s' ∧ ¬ s'.RevocationFinal := by
  obtain ⟨ls, s', hrun, hex⟩ : CanExchange cfg s j row := holder_commits hs hd hheld hact
  refine ⟨ls, s', hrun, fun hfinal => ?_⟩
  obtain ⟨r, hr, hfamily, hlive⟩ := hex.live
  exact hfinal i c row.familyId ((hex.others i hij).trans hc) hrevoked r hr hfamily hlive

/-- The commit of `revoke_family` goes through, and then the refresh does. -/
theorem revoked_then_revived {s : Sys} (hs : Base s) {i j : Nat} {c d : Call} {row : TokenRow}
    (hij : i ≠ j) (hc : s.parties[i]? = some c)
    (hpending : c.pc.uncommittedRevoke = some row.familyId) (hd : s.parties[j]? = some d)
    (hheld : d.pc.held = some row) (hact : s.shared.active row.userId = true) :
    ∃ ls s', run (Sys.step cfg) s ls = some s' ∧ ¬ s'.RevocationFinal := by
  cases hpc : c.pc with
  | revokeCommit at_ familyId ids answer =>
    rw [hpc] at hpending
    obtain rfl : familyId = row.familyId := Option.some.inj hpending
    have hstep : stepPc cfg s.shared c.serial c.pc (.go at_)
        = some ({ s.shared with tokens := s.shared.tokens.revoke ids at_ },
          .done answer (.revoked row.familyId)) := by rw [hpc]; rfl
    have hsys := step_act hc hstep
    obtain ⟨ls, s', hrun, hnot⟩ := revived (base_step hs hsys) hij (set_self hc) rfl
      ((set_other hij.symm).trans hd) hheld hact
    refine ⟨.act i (.go at_) :: ls, s', ?_, hnot⟩
    rw [run_cons, hsys]
    exact hrun
  | _ =>
    rw [hpc] at hpending
    exact nomatch hpending

/-- **Either overlap leads to the defect.** -/
theorem overlap_breaks {s s₁ : Sys} {l : Label} (hs : Base s) (hrace : ¬ NoOverlap s l)
    (h : s.step cfg l = some s₁) :
    ∃ ls s₂, run (Sys.step cfg) s₁ ls = some s₂ ∧ ¬ s₂.RevocationFinal := by
  have hraces : RacesRevoke s l := not_not.mp hrace
  have hs₁ : Base s₁ := base_step hs h
  cases l with
  | call request => exact hraces.elim
  | act i choice =>
    cases choice with
    | abort => exact hraces.elim
    | go now =>
      obtain ⟨c, hc, hcase⟩ := hraces
      rcases hcase with ⟨f, hf, d, hd, row, hheld, rfl, hact⟩ | ⟨row, hreads, hact, d, hd, hpending⟩
      · -- the update runs while the call at `j` holds a row of the family
        obtain ⟨j, hj⟩ := List.mem_iff_getElem?.mp hd
        obtain ⟨serial, pc⟩ := c
        cases pc with
        | revoking at_ familyId answer =>
          obtain rfl : familyId = row.familyId := Option.some.inj hf
          obtain rfl := Option.some.inj ((step_act hc rfl).symm.trans h)
          have hij : i ≠ j := by
            rintro rfl
            rw [hc] at hj
            obtain rfl := Option.some.inj hj
            exact nomatch hheld
          exact revoked_then_revived hs₁ hij (set_self hc) rfl ((set_other hij.symm).trans hj)
            hheld hact
        | _ => exact nomatch hf
      · -- the call reads a row of a family that the call at `j` is revoking
        obtain ⟨j, hj⟩ := List.mem_iff_getElem?.mp hd
        obtain ⟨userAgent, hstep⟩ := reads_step cfg c.serial hreads
        obtain rfl := Option.some.inj ((step_act hc hstep).symm.trans h)
        have hji : j ≠ i := by
          rintro rfl
          rw [hc] at hj
          obtain rfl := Option.some.inj hj
          cases hpc : c.pc with
          | refreshStart token userAgent =>
            rw [hpc] at hpending
            exact nomatch hpending
          | _ =>
            rw [hpc] at hreads
            exact nomatch hreads
        exact revoked_then_revived hs₁ hji ((set_other hji).trans hj) hpending (set_self hc) rfl
          hact

/-! ## 5. The result -/

/-- **Revocation is final, exactly without the overlaps.**  From an empty token table, in every
run of logins, refreshes and logouts in which no refresh of an active user overlaps a revocation
of its family, every revoked family stays without a live row; and from every state of a run in
which they overlap, further steps reach a live row of a revoked family. -/
theorem revocation_final (cfg : Config) (users : List User) :
    (∀ (ls : List Label) (s : Sys), Guarded (Sys.step cfg) NoOverlap (start users) ls →
      run (Sys.step cfg) (start users) ls = some s → s.RevocationFinal) ∧
    (∀ (ls : List Label) (s s₁ : Sys) (l : Label),
      run (Sys.step cfg) (start users) ls = some s → s.step cfg l = some s₁ →
      ¬ NoOverlap s l →
      ∃ ls' s₂, run (Sys.step cfg) s₁ ls' = some s₂ ∧ ¬ s₂.RevocationFinal) := by
  constructor
  · intro ls s hg hrun
    have hstep : ∀ (s : Sys) (l : Label) (s' : Sys), (Base s ∧ Closed s) → NoOverlap s l →
        s.step cfg l = some s' → Base s' ∧ Closed s' := by
      rintro s l s' ⟨hs, hi⟩ hno h
      exact ⟨base_step hs h, closed_step hs hi hno h⟩
    have hboth : Base s ∧ Closed s :=
      run_invariant hstep ⟨start_base users, start_closed users⟩ hg hrun
    exact hboth.2.final
  · intro ls s s₁ l hrun h hrace
    exact overlap_breaks (base_run (start_base users) hrun) hrace h

/-- The user logs in and out; the token is refused afterwards. -/
def logoutRun : List Label :=
  loginRun ++ [.call (.logout (some 0))] ++ List.replicate 3 (.act 1 (.go 1)) ++
  [.call (.refresh 0 none), .act 2 (.go 2), .act 2 (.go 2), .act 2 (.go 2)]

theorem revocation_final_logout :
    ∃ s, run (Sys.step sampleConfig) (start sampleUsers) logoutRun = some s ∧
      s.parties.map (fun c => c.pc.committed) = [.opened 0, .revoked 0, .revoked 0] ∧
      s.RevocationFinal := by
  have hrun : (run (Sys.step sampleConfig) (start sampleUsers) logoutRun).map
      (fun s => s.parties.map fun c => c.pc.committed)
        = some [.opened 0, .revoked 0, .revoked 0] := by decide
  obtain ⟨s, hs, heq⟩ := Option.map_eq_some_iff.mp hrun
  refine ⟨s, hs, heq, ?_⟩
  exact (revocation_final sampleConfig sampleUsers).1 logoutRun s (by decide) hs

/-- A refresh reads its row, the user logs out, and the refresh goes on. -/
def overlapRun : List Label :=
  loginRun ++ [.call (.refresh 0 none), .act 1 (.go 1), .call (.logout (some 0))] ++
  List.replicate 3 (.act 2 (.go 1)) ++ List.replicate 4 (.act 1 (.go 1))

/-- **The overlap happens.**  A run of the system has a live row of a revoked family. -/
theorem not_revocation_final :
    ¬ ∀ (cfg : Config) (users : List User) (ls : List Label) (s : Sys),
      run (Sys.step cfg) (start users) ls = some s → s.RevocationFinal := by
  intro h
  have hrun : (run (Sys.step sampleConfig) (start sampleUsers) overlapRun).map
      (fun s => ((s.parties[2]?).map fun c => c.pc.committed,
        s.shared.tokens.rows.any fun r => r.familyId = 0 ∧ r.revokedAt = none))
        = some (some (.revoked 0), true) := by decide
  obtain ⟨s, hs, heq⟩ := Option.map_eq_some_iff.mp hrun
  obtain ⟨htwo, hany⟩ := Prod.mk.inj heq
  obtain ⟨c, hc, hcommitted⟩ := Option.map_eq_some_iff.mp htwo
  obtain ⟨r, hr, hboth⟩ := List.any_eq_true.mp hany
  have hparts : r.familyId = 0 ∧ r.revokedAt = none := by simpa using hboth
  exact h sampleConfig sampleUsers overlapRun s hs 2 c 0 hc hcommitted r hr hparts.1 hparts.2

end AtlasKnowledge.Auth
