/-
# Refresh tokens are single use, unless two refreshes have read the same row

`refresh` reads the row, checks that it is not revoked, and revokes it by primary key three
statements later, with no condition.  Two calls that present the same token at the same time
both pass the check and both exchange it.

* `single_use`: with that one race excluded, no row is exchanged twice and no family ever has
  two live rows, in every run of logins, refreshes and logouts; and the race is exact, since
  from every state in which it happens the two calls can go on to exchange the row twice.
* `not_single_use`: one login and two refreshes.
-/
import AtlasKnowledge.Auth.Sessions

namespace AtlasKnowledge.Auth

open Interleave Transition

/-! ## 1. The property and the race -/

/-- No two calls have exchanged one row, and no two live rows are of one family. -/
structure Sys.SingleUse (s : Sys) : Prop where
  exchanges : ∀ (i j : Nat) (c d : Call) (rowId m n : Id), s.parties[i]? = some c →
    s.parties[j]? = some d → c.pc.committed = .exchanged rowId m →
    d.pc.committed = .exchanged rowId n → i = j
  live : ∀ r ∈ s.shared.tokens.rows, ∀ r' ∈ s.shared.tokens.rows, r.familyId = r'.familyId →
    r.revokedAt = none → r'.revokedAt = none → r = r'

/-- The step lets a refresh go on with a row, of an active user, that another refresh holds. -/
def RacesRead (s : Sys) : Label → Prop
  | .act i (.go now) => ∃ c ∈ s.parties[i]?, ∃ row ∈ c.pc.reads s.shared now,
    s.shared.active row.userId = true ∧ ∃ d ∈ s.parties, ∃ row' ∈ d.pc.held, row'.id = row.id
  | _ => False

/-- The condition on a step: no two refreshes hold one row. -/
def NoDoubleRead (s : Sys) (l : Label) : Prop := ¬ RacesRead s l

instance (s : Sys) : DecidablePred (RacesRead s)
  | .act i (.go now) => inferInstanceAs (Decidable (∃ c ∈ s.parties[i]?,
      ∃ row ∈ c.pc.reads s.shared now, s.shared.active row.userId = true ∧
        ∃ d ∈ s.parties, ∃ row' ∈ d.pc.held, row'.id = row.id))
  | .act _ .abort | .call _ => .isFalse id

instance (s : Sys) (l : Label) : Decidable (NoDoubleRead s l) :=
  inferInstanceAs (Decidable (¬ RacesRead s l))

/-! ## 2. The invariant -/

/-- In each family there is at most one row that is live or about to be exchanged, and a row that
was exchanged is neither. -/
structure Exclusive (s : Sys) : Prop where
  holder : ∀ i j row row', Holds s i row → Holds s j row' → row.familyId = row'.familyId → i = j
  held : ∀ i row, Holds s i row → ∀ r ∈ s.shared.tokens.rows, r.familyId = row.familyId →
    r.revokedAt = none → r.id = row.id
  live : ∀ r ∈ s.shared.tokens.rows, ∀ r' ∈ s.shared.tokens.rows, r.familyId = r'.familyId →
    r.revokedAt = none → r'.revokedAt = none → r = r'
  spent : ∀ (i : Nat) (c : Call) (rowId newId : Id), s.parties[i]? = some c →
    c.pc.committed = .exchanged rowId newId →
    (∃ r ∈ s.shared.tokens.rows, r.id = rowId ∧ r.revokedAt ≠ none) ∧
      ∀ j row, Holds s j row → row.id ≠ rowId
  once : ∀ (i j : Nat) (c d : Call) (rowId m n : Id), s.parties[i]? = some c →
    s.parties[j]? = some d → c.pc.committed = .exchanged rowId m →
    d.pc.committed = .exchanged rowId n → i = j

theorem start_exclusive (users : List User) : Exclusive (start users) := by
  refine ⟨?_, ?_, ?_, ?_, ?_⟩
  · rintro i j row row' ⟨⟨c, hc, -⟩, -⟩
    simp [start] at hc
  · rintro i row ⟨⟨c, hc, -⟩, -⟩
    simp [start] at hc
  · intro r hr
    simp [start, TokenTable.empty] at hr
  · intro i c rowId newId hc
    simp [start] at hc
  · intro i j c d rowId m n hc
    simp [start] at hc

variable {cfg : Config}

/-- Calls that hold and have exchanged nothing but what calls held and had exchanged before. -/
theorem exclusive_of_back {s : Sys} {parties : List Call} (hi : Exclusive s)
    (hback : ∀ j row, Holds ⟨s.shared, parties⟩ j row → Holds s j row)
    (hcommit : ∀ (j : Nat) (d : Call) (rowId newId : Id), parties[j]? = some d →
      d.pc.committed = .exchanged rowId newId → s.parties[j]? = some d) :
    Exclusive ⟨s.shared, parties⟩ := by
  refine ⟨?_, ?_, hi.live, ?_, ?_⟩
  · intro j k row row' h h'
    exact hi.holder j k row row' (hback j row h) (hback k row' h')
  · intro j row h
    exact hi.held j row (hback j row h)
  · intro j d rowId newId hd hdc
    obtain ⟨hspent, hno⟩ := hi.spent j d rowId newId (hcommit j d rowId newId hd hdc) hdc
    exact ⟨hspent, fun k row h => hno k row (hback k row h)⟩
  · intro j k d e rowId m n hd he hdc hec
    exact hi.once j k d e rowId m n (hcommit j d rowId m hd hdc) (hcommit k e rowId n he hec) hdc
      hec

/-- A step that leaves the tables alone and holds nothing new keeps the invariant. -/
theorem exclusive_move {s : Sys} {i : Nat} {c : Call} {pc : Pc} (hi : Exclusive s)
    (hc : s.parties[i]? = some c) (hheld : pc.held = none ∨ pc.held = c.pc.held)
    (hcommits : pc.committed = .nothing) :
    Exclusive ⟨s.shared, s.parties.set i { c with pc := pc }⟩ := by
  have hback : ∀ j row, Holds ⟨s.shared, s.parties.set i { c with pc := pc }⟩ j row →
      Holds s j row := by
    intro j row h
    rcases holds_set (fun _ => rfl) h with ⟨-, hold⟩ | ⟨rfl, hpc, hact⟩
    · exact hold
    · rcases hheld with hnone | hsame
      · rw [hnone] at hpc
        exact nomatch hpc
      · exact ⟨⟨c, hc, by rw [← hsame, hpc]⟩, hact⟩
  have hcommit : ∀ (j : Nat) (d : Call) (rowId newId : Id),
      (s.parties.set i { c with pc := pc })[j]? = some d →
      d.pc.committed = .exchanged rowId newId → s.parties[j]? = some d := by
    intro j d rowId newId hd hdc
    rcases set_cases hd with ⟨-, rfl⟩ | ⟨-, hold⟩
    · rw [show pc.committed = _ from hcommits] at hdc
      exact nomatch hdc
    · exact hold
  exact exclusive_of_back hi hback hcommit

/-- A refresh that goes on with a row nobody else holds keeps the invariant. -/
theorem exclusive_read {s : Sys} {i : Nat} {c : Call} {now : Time} {row : TokenRow}
    {userAgent : Option String} (hi : Exclusive s) (hc : s.parties[i]? = some c)
    (hreads : c.pc.reads s.shared now = some row)
    (hno : NoDoubleRead s (.act i (.go now))) :
    Exclusive ⟨s.shared, s.parties.set i { c with pc := .refreshUser now row userAgent }⟩ := by
  obtain ⟨hrow, hlive, -⟩ := reads_spec hreads
  -- nobody else holds a row of the family
  have halone : s.shared.active row.userId = true → ∀ j row', Holds s j row' →
      row'.familyId ≠ row.familyId := by
    intro hact j row' hj hfamily
    have hid : row.id = row'.id := hi.held j row' hj row hrow hfamily.symm hlive
    obtain ⟨d, hd, hheld⟩ := hj.call
    exact hno ⟨c, hc, row, hreads, hact, d, List.mem_of_getElem? hd, row', hheld, hid.symm⟩
  have hcases : ∀ j row', Holds ⟨s.shared, s.parties.set i
      { c with pc := .refreshUser now row userAgent }⟩ j row' →
      (j ≠ i ∧ Holds s j row') ∨ (j = i ∧ row' = row ∧ s.shared.active row.userId = true) := by
    intro j row' h
    rcases holds_set (fun _ => rfl) h with hold | ⟨hj, hpc, hact⟩
    · exact Or.inl hold
    · obtain rfl : row = row' := Option.some.inj hpc
      exact Or.inr ⟨hj, rfl, hact⟩
  have hcommit : ∀ (j : Nat) (d : Call) (rowId newId : Id), (s.parties.set i
      { c with pc := .refreshUser now row userAgent })[j]? = some d →
      d.pc.committed = .exchanged rowId newId → s.parties[j]? = some d := by
    intro j d rowId newId hd hdc
    rcases set_cases hd with ⟨-, rfl⟩ | ⟨-, hold⟩
    · exact nomatch hdc
    · exact hold
  refine ⟨?_, ?_, hi.live, ?_, ?_⟩
  · intro j k row₁ row₂ h₁ h₂ hfamily
    rcases hcases j row₁ h₁ with ⟨-, hold₁⟩ | ⟨rfl, rfl, hact⟩
    · rcases hcases k row₂ h₂ with ⟨-, hold₂⟩ | ⟨rfl, rfl, hact⟩
      · exact hi.holder j k row₁ row₂ hold₁ hold₂ hfamily
      · exact absurd hfamily (halone hact j row₁ hold₁)
    · rcases hcases k row₂ h₂ with ⟨-, hold₂⟩ | ⟨rfl, -, -⟩
      · exact absurd hfamily.symm (halone hact k row₂ hold₂)
      · rfl
  · intro j row' h r hr hfamily hrlive
    rcases hcases j row' h with ⟨-, hold⟩ | ⟨-, rfl, -⟩
    · exact hi.held j row' hold r hr hfamily hrlive
    · rw [hi.live r hr row' hrow hfamily hrlive hlive]
  · intro j d rowId newId hd hdc
    obtain ⟨⟨r, hr, hid, hrevoked⟩, hnone⟩ :=
      hi.spent j d rowId newId (hcommit j d rowId newId hd hdc) hdc
    refine ⟨⟨r, hr, hid, hrevoked⟩, ?_⟩
    intro k row' h
    rcases hcases k row' h with ⟨-, hold⟩ | ⟨-, rfl, -⟩
    · exact hnone k row' hold
    · intro heq
      obtain rfl := eq_of_row_id hr hrow (hid.trans heq.symm)
      exact hrevoked hlive
  · intro j k d e rowId m n hd he hdc hec
    exact hi.once j k d e rowId m n (hcommit j d rowId m hd hdc) (hcommit k e rowId n he hec) hdc
      hec

/-- An exchange that is on record after another commit was on record before. -/
theorem exchanged_commit {s : Sys} {i j : Nat} {c d : Call} {answer : Answer}
    {committed : Committed} {rowId newId : Id}
    (hno : ∀ rowId newId, committed ≠ .exchanged rowId newId)
    (hd : (s.parties.set i { c with pc := .done answer committed })[j]? = some d)
    (hdc : d.pc.committed = .exchanged rowId newId) : s.parties[j]? = some d := by
  rcases set_cases hd with ⟨-, rfl⟩ | ⟨-, hold⟩
  · exact absurd hdc (hno rowId newId)
  · exact hold

/-- The commit of a revocation keeps the invariant: it only takes live rows away. -/
theorem exclusive_revoke {s : Sys} {i : Nat} {c : Call} {at_ : Time} {familyId : Id}
    {ids : List Id} {answer : Answer} (hi : Exclusive s) :
    Exclusive ⟨{ s.shared with tokens := s.shared.tokens.revoke ids at_ },
      s.parties.set i { c with pc := .done answer (.revoked familyId) }⟩ := by
  have hactive : ∀ userId, Db.active { s.shared with tokens := s.shared.tokens.revoke ids at_ }
      userId = s.shared.active userId := fun _ => rfl
  have hback : ∀ r ∈ (s.shared.tokens.revoke ids at_).rows, r.revokedAt = none →
      r ∈ s.shared.tokens.rows := fun r hr hlive => (live_of_revoke hr hlive).1
  have hno : ∀ rowId newId, Committed.revoked familyId ≠ .exchanged rowId newId :=
    fun _ _ h => nomatch h
  refine ⟨?_, ?_, ?_, ?_, ?_⟩
  · intro j k row row' h h'
    exact hi.holder j k row row' (holds_commit hactive h).2
      (holds_commit hactive h').2
  · intro j row h r hr hfamily hlive
    exact hi.held j row (holds_commit hactive h).2 r (hback r hr hlive) hfamily hlive
  · intro r hr r' hr' hfamily hlive hlive'
    exact hi.live r (hback r hr hlive) r' (hback r' hr' hlive') hfamily hlive hlive'
  · intro j d rowId newId hd hdc
    obtain ⟨⟨r, hr, hid, hrevoked⟩, hnone⟩ :=
      hi.spent j d rowId newId (exchanged_commit hno hd hdc) hdc
    refine ⟨⟨r, mem_update.mpr ⟨r, hr, ?_⟩, hid, hrevoked⟩, ?_⟩
    · simp [hrevoked]
    · intro k row h
      exact hnone k row (holds_commit hactive h).2
  · intro j k d e rowId m n hd he hdc hec
    exact hi.once j k d e rowId m n (exchanged_commit hno hd hdc) (exchanged_commit hno he hec)
      hdc hec

/-- The commit of a login keeps the invariant: its family is new. -/
theorem exclusive_login {s : Sys} {i : Nat} {c : Call} {user : User} {newHash : Option String}
    {new : TokenRow} {tokens : TokenTable} {answer : Answer} (hs : Base s) (hi : Exclusive s)
    (hc : s.parties[i]? = some c) (hdone : c.pc.isDone = false)
    (hnew : Issued i i new) (htokens : s.shared.tokens.insert? new = some tokens) :
    Exclusive ⟨{ s.shared.rehash user.id newHash with tokens := tokens },
      s.parties.set i { c with pc := .done answer (.opened new.familyId) }⟩ := by
  have hactive : ∀ userId, Db.active { s.shared.rehash user.id newHash with tokens := tokens }
      userId = s.shared.active userId := fun userId => rehash_active user.id userId newHash
  have hrows : ∀ r ∈ tokens.rows, r ∈ s.shared.tokens.rows ∨ r = new := fun r hr =>
    (mem_insert htokens).mp hr
  have hfamily : ∀ r ∈ s.shared.tokens.rows, r.familyId ≠ new.familyId := by
    intro r hr
    rw [hnew.familyId]
    exact hs.fresh_family hc hdone r hr
  have hno : ∀ rowId newId, Committed.opened new.familyId ≠ .exchanged rowId newId :=
    fun _ _ h => nomatch h
  refine ⟨?_, ?_, ?_, ?_, ?_⟩
  · intro j k row row' h h'
    exact hi.holder j k row row' (holds_commit hactive h).2 (holds_commit hactive h').2
  · intro j row h r hr hsame hlive
    have hold := (holds_commit hactive h).2
    rcases hrows r hr with hin | rfl
    · exact hi.held j row hold r hin hsame hlive
    · obtain ⟨d, hd, hheld⟩ := hold.call
      obtain ⟨r₀, hr₀, -, hfam, -⟩ := hs.known_of_held hd hheld
      exact absurd (hfam.trans hsame.symm) (hfamily r₀ hr₀)
  · intro r hr r' hr' hsame hlive hlive'
    rcases hrows r hr with hin | hsame₁
    · rcases hrows r' hr' with hin' | rfl
      · exact hi.live r hin r' hin' hsame hlive hlive'
      · exact absurd hsame (hfamily r hin)
    · rcases hrows r' hr' with hin' | hsame₂
      · rw [hsame₁] at hsame
        exact absurd hsame.symm (hfamily r' hin')
      · rw [hsame₁, hsame₂]
  · intro j d rowId newId hd hdc
    obtain ⟨⟨r, hr, hid, hrevoked⟩, hnone⟩ :=
      hi.spent j d rowId newId (exchanged_commit hno hd hdc) hdc
    refine ⟨⟨r, ?_, hid, hrevoked⟩, fun k row h => hnone k row (holds_commit hactive h).2⟩
    exact (mem_insert htokens).mpr (Or.inl hr)
  · intro j k d e rowId m n hd he hdc hec
    exact hi.once j k d e rowId m n (exchanged_commit hno hd hdc) (exchanged_commit hno he hec)
      hdc hec

/-- **The commit of an exchange keeps the invariant**: the old row is live no more, and the new
one takes its place. -/
theorem exclusive_exchange {s : Sys} {i : Nat} {c : Call} {at_ : Time} {row new : TokenRow}
    {user : User} {tokens : TokenTable} {answer : Answer} (hs : Base s) (hi : Exclusive s)
    (hc : s.parties[i]? = some c) (hpc : c.pc = .refreshCommit at_ row user new)
    (hactive : s.shared.active row.userId = true) (hnew : Issued i row.familyId new)
    (htokens : s.shared.tokens.insert? new = some tokens) :
    Exclusive ⟨{ s.shared with tokens := tokens.replace row.id at_ new.id },
      s.parties.set i { c with pc := .done answer (.exchanged row.id new.id) }⟩ := by
  have hheld : c.pc.held = some row := by rw [hpc]; rfl
  have hholds : Holds s i row := ⟨⟨c, hc, hheld⟩, hactive⟩
  have hknown : Known s.shared.tokens row := hs.known_of_held hc hheld
  have hkeep : ∀ userId, Db.active { s.shared with tokens := tokens.replace row.id at_ new.id }
      userId = s.shared.active userId := fun _ => rfl
  -- a live row afterwards is an old one, other than the exchanged one, or the new one
  have hrows : ∀ r ∈ (tokens.replace row.id at_ new.id).rows, r.revokedAt = none →
      (r ∈ s.shared.tokens.rows ∧ r.id ≠ row.id) ∨ r = new :=
    fun r hr hlive => live_of_exchange htokens hr hlive
  -- no other live row is of the family of the exchanged row
  have hlast : ∀ r ∈ s.shared.tokens.rows, r.id ≠ row.id → r.familyId = row.familyId →
      r.revokedAt ≠ none := by
    intro r hr hne hfamily hlive
    exact hne (hi.held i row hholds r hr hfamily hlive)
  have hother : ∀ j row', Holds ⟨{ s.shared with tokens := tokens.replace row.id at_ new.id },
      s.parties.set i { c with pc := .done answer (.exchanged row.id new.id) }⟩ j row' →
      Holds s j row' ∧ row'.familyId ≠ row.familyId := by
    intro j row' h
    obtain ⟨hne, hold⟩ := holds_commit hkeep h
    exact ⟨hold, fun hfamily => hne (hi.holder j i row' row hold hholds hfamily)⟩
  have hcases : ∀ (j : Nat) (d : Call) (rowId newId : Id), (s.parties.set i
      { c with pc := .done answer (.exchanged row.id new.id) })[j]? = some d →
      d.pc.committed = .exchanged rowId newId →
      (j = i ∧ rowId = row.id) ∨ (s.parties[j]? = some d ∧ rowId ≠ row.id) := by
    intro j d rowId newId hd hdc
    rcases set_cases hd with ⟨hj, rfl⟩ | ⟨-, hold⟩
    · exact Or.inl ⟨hj, (Committed.exchanged.inj hdc).1.symm⟩
    · exact Or.inr ⟨hold, fun heq =>
        (hi.spent j d rowId newId hold hdc).2 i row hholds heq.symm⟩
  refine ⟨?_, ?_, ?_, ?_, ?_⟩
  · intro j k row₁ row₂ h₁ h₂
    exact hi.holder j k row₁ row₂ (hother j row₁ h₁).1 (hother k row₂ h₂).1
  · intro j row' h r hr hfamily hlive
    obtain ⟨hold, hne⟩ := hother j row' h
    rcases hrows r hr hlive with ⟨hr, -⟩ | rfl
    · exact hi.held j row' hold r hr hfamily hlive
    · exact absurd (hfamily.symm.trans hnew.familyId) hne
  · intro r hr r' hr' hfamily hlive hlive'
    rcases hrows r hr hlive with ⟨hin, hne⟩ | hsame
    · rcases hrows r' hr' hlive' with ⟨hin', -⟩ | hsame'
      · exact hi.live r hin r' hin' hfamily hlive hlive'
      · rw [hsame', hnew.familyId] at hfamily
        exact absurd hlive (hlast r hin hne hfamily)
    · rcases hrows r' hr' hlive' with ⟨hin', hne⟩ | hsame'
      · rw [hsame, hnew.familyId] at hfamily
        exact absurd hlive' (hlast r' hin' hne hfamily.symm)
      · rw [hsame, hsame']
  · intro j d rowId newId hd hdc
    rcases hcases j d rowId newId hd hdc with ⟨-, rfl⟩ | ⟨hold, hne⟩
    · constructor
      · obtain ⟨r, hr, hid, -⟩ := hknown
        have hmem : r ∈ tokens.rows := (mem_insert htokens).mpr (Or.inl hr)
        exact ⟨_, mem_update.mpr ⟨r, hmem, rfl⟩, hid, by simp [hid]⟩
      · intro k row' h heq
        obtain ⟨holdk, hfamily⟩ := hother k row' h
        obtain ⟨e, he, heheld⟩ := holdk.call
        exact hfamily ((hs.known_of_held he heheld).same hknown heq).1
    · obtain ⟨⟨r, hr, rfl, hrevoked⟩, hnone⟩ := hi.spent j d rowId newId hold hdc
      refine ⟨⟨r, mem_update.mpr ⟨r, ?_, ?_⟩, rfl, hrevoked⟩, ?_⟩
      · exact (mem_insert htokens).mpr (Or.inl hr)
      · simp [hne]
      · intro k row' h
        exact hnone k row' (hother k row' h).1
  · intro j k d e rowId m n hd he hdc hec
    rcases hcases j d rowId m hd hdc with ⟨rfl, rfl⟩ | ⟨holdj, hne⟩
    · rcases hcases k e _ n he hec with ⟨rfl, -⟩ | ⟨-, hne⟩
      · rfl
      · exact absurd rfl hne
    · rcases hcases k e rowId n he hec with ⟨-, heq⟩ | ⟨holdk, -⟩
      · exact absurd heq hne
      · exact hi.once j k d e rowId m n holdj holdk hdc hec

/-- A call that arrives holds nothing yet. -/
theorem exclusive_call {s : Sys} (hi : Exclusive s) (request : Request) :
    Exclusive (s.spawn { serial := s.parties.length, pc := request.start }) := by
  have hheld : request.start.held = none := by cases request <;> rfl
  have hcommits : request.start.committed = .nothing := by cases request <;> rfl
  have hback : ∀ j row, Holds (s.spawn { serial := s.parties.length, pc := request.start }) j row →
      Holds s j row := by
    rintro j row ⟨⟨d, hd, hdheld⟩, hact⟩
    rcases concat_cases hd with ⟨-, rfl⟩ | hold
    · rw [show request.start.held = some row from hdheld] at hheld
      exact nomatch hheld
    · exact ⟨⟨d, hold, hdheld⟩, hact⟩
  have hcommit : ∀ (j : Nat) (d : Call) (rowId newId : Id),
      (s.parties ++ [{ serial := s.parties.length, pc := request.start }])[j]? = some d →
      d.pc.committed = .exchanged rowId newId → s.parties[j]? = some d := by
    intro j d rowId newId hd hdc
    rcases concat_cases hd with ⟨-, rfl⟩ | hold
    · rw [show request.start.committed = _ from hdc] at hcommits
      exact nomatch hcommits
    · exact hold
  exact exclusive_of_back hi hback hcommit

/-- **One step keeps the invariant**, unless it lets a second refresh go on with a held row. -/
theorem exclusive_step {s s' : Sys} {l : Label} (hs : Base s) (hi : Exclusive s)
    (hno : NoDoubleRead s l) (h : s.step cfg l = some s') : Exclusive s' := by
  cases step_cases h with
  | call request => exact exclusive_call hi request
  | @act i choice c db pc hc hstep =>
    obtain ⟨serial, pc₀⟩ := c
    obtain rfl : serial = i := hs.serial i _ hc
    have hl : Local s.shared serial pc₀ := hs.knows _ _ hc
    cases stepPc_effect hstep with
    | login htokens => exact exclusive_login hs hi hc rfl hl htokens
    | exchange htokens => exact exclusive_exchange hs hi hc rfl hl.2.1 hl.2.2 htokens
    | revoke => exact exclusive_revoke hi
    | read hreads => exact exclusive_read hi hc hreads hno
    | collect => exact exclusive_move hi hc (Or.inl rfl) rfl
    | move held _ commits => exact exclusive_move hi hc held commits

/-! ## 3. The race always does harm -/

/-- **The race leads to the defect.**  After both reads, both calls can go on to exchange the
row. -/
theorem race_breaks {s s₁ : Sys} {l : Label} (hs : Base s) (hrace : ¬ NoDoubleRead s l)
    (h : s.step cfg l = some s₁) :
    ∃ ls s₂, run (Sys.step cfg) s₁ ls = some s₂ ∧ ¬ s₂.SingleUse := by
  have hraces : RacesRead s l := not_not.mp hrace
  cases l with
  | call request => exact hraces.elim
  | act i choice =>
    cases choice with
    | abort => exact hraces.elim
    | go now =>
      obtain ⟨c, hc, row, hreads, hact, d, hd, row', hheld, hid⟩ := hraces
      obtain ⟨j, hj⟩ := List.mem_iff_getElem?.mp hd
      obtain ⟨userAgent, hstep⟩ := reads_step cfg c.serial hreads
      have hs₁ : Base s₁ := base_step hs h
      obtain rfl := Option.some.inj ((step_act hc hstep).symm.trans h)
      obtain ⟨hrow, -, hnone⟩ := reads_spec hreads
      have hij : j ≠ i := by
        rintro rfl
        rw [hc] at hj
        obtain rfl := Option.some.inj hj
        rw [hnone] at hheld
        exact nomatch hheld
      have hsame := (hs.known_of_held hj hheld).same (Known.of_mem hrow) hid
      -- the second reader commits first
      obtain ⟨ls, s₂, hrun, hex⟩ : CanExchange cfg _ i row :=
        holder_commits hs₁ (set_self hc) rfl hact
      have hj₂ : s₂.parties[j]? = some d := by
        rw [hex.others j hij]
        exact (set_other hij).trans hj
      have hact₂ : s₂.shared.active row'.userId = true := by
        rw [hex.active, hsame.2]
        exact hact
      obtain ⟨ls', s₃, hrun', hex'⟩ : CanExchange cfg s₂ j row' :=
        holder_commits (base_run hs₁ hrun) hj₂ hheld hact₂
      refine ⟨ls ++ ls', s₃, run_append_eq_some.mpr ⟨s₂, hrun, hrun'⟩, fun huse => ?_⟩
      obtain ⟨c₂, hc₂, m, hm⟩ := hex.committed
      obtain ⟨d₃, hd₃, n, hn⟩ := hex'.committed
      have hc₃ : s₃.parties[i]? = some c₂ := (hex'.others i hij.symm).trans hc₂
      rw [hid] at hn
      exact hij (huse.exchanges i j c₂ d₃ row.id m n hc₃ hd₃ hm hn).symm

/-! ## 4. The result -/

/-- **Refresh tokens are single use, exactly without the race.**  From an empty token table, in
every run of logins, refreshes and logouts in which no refresh goes on with a row that another
refresh holds, every state is single use; and from every state of a run in which that happens,
further steps of the two calls reach a state that is not. -/
theorem single_use (cfg : Config) (users : List User) :
    (∀ (ls : List Label) (s : Sys), Guarded (Sys.step cfg) NoDoubleRead (start users) ls →
      run (Sys.step cfg) (start users) ls = some s → s.SingleUse) ∧
    (∀ (ls : List Label) (s s₁ : Sys) (l : Label),
      run (Sys.step cfg) (start users) ls = some s → s.step cfg l = some s₁ →
      ¬ NoDoubleRead s l →
      ∃ ls' s₂, run (Sys.step cfg) s₁ ls' = some s₂ ∧ ¬ s₂.SingleUse) := by
  constructor
  · intro ls s hg hrun
    have hstep : ∀ (s : Sys) (l : Label) (s' : Sys), (Base s ∧ Exclusive s) → NoDoubleRead s l →
        s.step cfg l = some s' → Base s' ∧ Exclusive s' := by
      rintro s l s' ⟨hs, hi⟩ hno h
      exact ⟨base_step hs h, exclusive_step hs hi hno h⟩
    have hboth : Base s ∧ Exclusive s :=
      run_invariant hstep ⟨start_base users, start_exclusive users⟩ hg hrun
    exact ⟨hboth.2.once, hboth.2.live⟩
  · intro ls s s₁ l hrun h hrace
    exact race_breaks (base_run (start_base users) hrun) hrace h

/-- A refresh, then the same token once more: the second call is refused. -/
def replayRun : List Label :=
  loginRun ++ [.call (.refresh 0 none)] ++ List.replicate 5 (.act 1 (.go 1)) ++
  [.call (.refresh 0 none), .act 2 (.go 2)]

theorem single_use_replay :
    ∃ s, run (Sys.step sampleConfig) (start sampleUsers) replayRun = some s ∧
      s.parties.map (fun c => c.pc.committed) = [.opened 0, .exchanged 0 1, .nothing] ∧
      s.SingleUse := by
  have hrun : (run (Sys.step sampleConfig) (start sampleUsers) replayRun).map
      (fun s => s.parties.map fun c => c.pc.committed)
        = some [.opened 0, .exchanged 0 1, .nothing] := by decide
  obtain ⟨s, hs, heq⟩ := Option.map_eq_some_iff.mp hrun
  refine ⟨s, hs, heq, ?_⟩
  exact (single_use sampleConfig sampleUsers).1 replayRun s (by decide) hs

/-- Two refreshes present token 0; both read its row before either commits. -/
def doubleRead : List Label :=
  loginRun ++ [.call (.refresh 0 none), .call (.refresh 0 none), .act 1 (.go 1), .act 2 (.go 1)] ++
  List.replicate 4 (.act 1 (.go 1)) ++ List.replicate 4 (.act 2 (.go 1))

/-- **The race happens.**  A run of the system exchanges one token twice. -/
theorem not_single_use :
    ¬ ∀ (cfg : Config) (users : List User) (ls : List Label) (s : Sys),
      run (Sys.step cfg) (start users) ls = some s → s.SingleUse := by
  intro h
  have hrun : (run (Sys.step sampleConfig) (start sampleUsers) doubleRead).map
      (fun s => ((s.parties[1]?).map fun c => c.pc.committed,
        (s.parties[2]?).map fun c => c.pc.committed))
        = some (some (.exchanged 0 1), some (.exchanged 0 2)) := by decide
  obtain ⟨s, hs, heq⟩ := Option.map_eq_some_iff.mp hrun
  obtain ⟨hone, htwo⟩ := Prod.mk.inj heq
  obtain ⟨c, hc, hcommitted⟩ := Option.map_eq_some_iff.mp hone
  obtain ⟨d, hd, hdcommitted⟩ := Option.map_eq_some_iff.mp htwo
  have huse := h sampleConfig sampleUsers doubleRead s hs
  exact absurd (huse.exchanges 1 2 c d 0 1 2 hc hd hcommitted hdcommitted) (by decide)

end AtlasKnowledge.Auth
