/-
# How often a failed document is restarted

A retry request and a re-upload of the same bytes read the status, look for the first failed
stage, write the stage's entry status and send its message.  The write is the ORM's update of the
loaded row: it has no condition on the status, unlike the claim of a stage.  Two requests that
both read `failed` both write and both send; the later write can meet a document that the first
restart has already moved on.

The account of a request is kept from what its steps do to the world, not from where it stands.

* `restarted_once`: in every run in which each such write finds the document still `failed` and
  nothing raises in a request, every restart has its one message, and a request that restarts
  nothing changes and sends nothing; each condition is exact, since a step that breaks it leads
  to a request with a wrong account;
* `not_restarted_once`: two retry requests, both of which read `failed`.
-/
import AtlasKnowledge.Pipeline.System

namespace AtlasKnowledge.Pipeline

open Interleave Transition

variable {ω : Type}

/-! ## 1. Accounts -/

/-- What a party has done so far: how often it took the status out of `failed`, how often it
changed the status at all, and how many messages it sent. -/
structure Tally where
  freed : Nat
  changed : Nat
  sent : Nat
  deriving DecidableEq, Repr

/-- Nothing counted yet. -/
def Tally.zero : Tally := ⟨0, 0, 0⟩

/-- The account after a step that turned `w` into `w'`. -/
def Tally.add (t : Tally) (w w' : World ω) : Tally where
  freed := t.freed + if w.status = some .failed ∧ w'.status ≠ some .failed then 1 else 0
  changed := t.changed + if w'.status = w.status then 0 else 1
  sent := t.sent + (w'.sent.length - w.sent.length)

/-- The system, with the account of the party at each position. -/
structure Audited (ω : Type) where
  sys : Sys ω
  tally : Nat → Tally

def Audited.step (A : Adapters) (a : Audited ω) (l : Label ω) : Option (Audited ω) :=
  (a.sys.step A l).map fun s =>
    { sys := s
      tally := match l with
        | .act i _ => fun j => if j = i then (a.tally i).add a.sys.shared s.shared else a.tally j
        | _ => a.tally }

/-- A document with executions in flight, and no request yet. -/
def World.audited (w : World ω) (tasks : List (Exec ω)) : Audited ω :=
  ⟨⟨w, tasks.map .task⟩, fun _ => .zero⟩

/-! ## 2. The property and its condition -/

/-- A request changes the status at most once and only by taking it out of `failed`; it sends at
most the one message that goes with that; and once it has answered, the message is sent, or
nothing was done and the answer says so. -/
structure Request.Once (r : Request) (t : Tally) : Prop where
  changed : t.changed = t.freed
  freed : t.freed ≤ 1
  sent : t.sent ≤ t.freed
  answered : ∀ answer, r.pc = .answered answer →
    t.sent = t.freed ∧ (t.freed = 0 → answer = r.kind.unchanged)

/-- Every request keeps to that. -/
def Audited.Once (a : Audited ω) : Prop :=
  ∀ (i : Nat) (r : Request), a.sys.parties[i]? = some (.request r) → r.Once (a.tally i)

/-- The row is there when the request looks for it, and `failed` when the request writes. -/
def Request.Proceeds (w : World ω) (r : Request) : Prop :=
  match r.pc with
  | .reading | .refreshing _ => w.doc ≠ none
  | .resetting _ _ => w.status = some .failed
  | _ => True

/-- The condition on a step: a request that moves on may do so, and nothing raises in it. -/
def Undisturbed (a : Audited ω) : Label ω → Prop
  | .act i .go => ∀ r, a.sys.parties[i]? = some (.request r) → r.Proceeds a.sys.shared
  | .act i (.raise _) => ∀ r, a.sys.parties[i]? ≠ some (.request r)
  | _ => True

instance (w : World ω) : DecidablePred (Request.Proceeds w)
  | ⟨_, .reading⟩ | ⟨_, .refreshing _⟩ => inferInstanceAs (Decidable (w.doc ≠ none))
  | ⟨_, .resetting _ _⟩ => inferInstanceAs (Decidable (w.status = some .failed))
  | ⟨_, .deciding _⟩ | ⟨_, .enqueueing _ _⟩ | ⟨_, .unmarking _⟩ | ⟨_, .answered _⟩ =>
    .isTrue trivial

instance (a : Audited ω) : DecidablePred (Undisturbed a)
  | .act i .go =>
    match h : a.sys.parties[i]? with
    | some (.request r) =>
      decidable_of_iff (r.Proceeds a.sys.shared) (by simp [Undisturbed, h])
    | some (.task _) | none => .isTrue (by simp [Undisturbed, h])
  | .act i (.raise _) =>
    match h : a.sys.parties[i]? with
    | some (.request r) => .isFalse (by simp [Undisturbed, h])
    | some (.task _) | none => .isTrue (by simp [Undisturbed, h])
  | .act _ (.reply _) | .act _ (.part _) | .deliver _ | .request _ | .delete | .purge =>
    .isTrue trivial

/-! ## 3. What every account invariant needs -/

variable {A : Adapters} {a a' : Audited ω} {l : Label ω} {w w' : World ω} {t : Tally}

@[simp] theorem Tally.add_self (t : Tally) (w : World ω) : t.add w w = t := by
  simp [Tally.add]

theorem Tally.add_message (t : Tally) (w : World ω) (m : Message) :
    t.add w { w with sent := w.sent ++ [m] } = { t with sent := t.sent + 1 } := by
  simp [Tally.add, World.status]

/-- A statement about requests and their accounts, for every request there is; a position that
is still free has an empty account. -/
structure Audited.All (P : Request → Tally → Prop) (a : Audited ω) : Prop where
  requests : ∀ (i : Nat) (r : Request), a.sys.parties[i]? = some (.request r) → P r (a.tally i)
  free : ∀ i, a.sys.parties.length ≤ i → a.tally i = .zero

theorem all_audited (P : Request → Tally → Prop) (w : World ω) (tasks : List (Exec ω)) :
    (w.audited tasks).All P where
  requests := by
    intro i r hr
    obtain ⟨x, -, hx⟩ := List.mem_map.mp (List.mem_of_getElem? hr)
    exact nomatch hx
  free := fun _ _ => rfl

/-- **What a step must do for its request, to keep a statement for all.** -/
theorem step_all {P : Request → Tally → Prop} (ha : a.All P)
    (hnew : ∀ kind, P ⟨kind, .reading⟩ .zero)
    (hmove : ∀ i c r w r', l = .act i c → a.sys.parties[i]? = some (.request r) →
      (Party.request r).step A a.sys.shared c = some (w, .request r') →
      P r (a.tally i) → P r' ((a.tally i).add a.sys.shared w))
    (h : a.step A l = some a') : a'.All P := by
  obtain ⟨s, hs, rfl⟩ := Option.map_eq_some_iff.mp h
  -- a step that is no party's own adds at most one request, at a free position
  have hspawn : ∀ (p : Party ω), (∀ r, p = .request r → ∃ kind, r = ⟨kind, .reading⟩) →
      Audited.All P ⟨a.sys.spawn p, a.tally⟩ := by
    intro p hp
    constructor
    · intro i r hr
      rcases concat_cases hr with ⟨rfl, heq⟩ | hold
      · obtain ⟨kind, rfl⟩ := hp r heq.symm
        rw [ha.free _ (Nat.le_refl _)]
        exact hnew kind
      · exact ha.requests i r hold
    · intro i hi
      have hlen : a.sys.parties.length + 1 ≤ i := by simpa using hi
      exact ha.free i (by omega)
  cases l with
  | deliver n =>
    obtain ⟨m, -, rfl⟩ := Option.map_eq_some_iff.mp hs
    exact hspawn _ (by rintro _ ⟨⟩)
  | request kind =>
    simp only [Sys.step] at hs
    split at hs
    · cases hs
    · obtain rfl := Option.some.inj hs
      refine hspawn _ fun r hr => ?_
      obtain rfl := Party.request.inj hr
      exact ⟨kind, rfl⟩
  | act i c =>
    obtain ⟨p, w, q, hp, hstep, rfl⟩ := Par.act_eq_some.mp hs
    obtain ⟨hlt, -⟩ := List.getElem?_eq_some_iff.mp hp
    constructor
    · intro j r hr
      rcases set_cases hr with ⟨rfl, heq⟩ | ⟨hne, hold⟩
      · subst heq
        cases p with
        | task x =>
          obtain ⟨y, -, heq⟩ := Option.map_eq_some_iff.mp hstep
          cases (Prod.mk.inj heq).2
        | request r₀ =>
          simp only [if_true]
          exact hmove j c r₀ w r rfl hp hstep (ha.requests j r₀ hp)
      · simp only [hne, if_false]
        exact ha.requests j r hold
    · intro j hj
      have hlen : a.sys.parties.length ≤ j := by simpa using hj
      have hne : j ≠ i := by omega
      simp only [hne, if_false]
      exact ha.free j hlen
  | delete =>
    obtain ⟨w, -, rfl⟩ := Option.map_eq_some_iff.mp hs
    exact ⟨ha.requests, ha.free⟩
  | purge =>
    obtain ⟨w, -, rfl⟩ := Option.map_eq_some_iff.mp hs
    exact ⟨ha.requests, ha.free⟩

/-! ## 4. Undisturbed requests -/

/-- The account a request has at each place of an undisturbed run. -/
def Request.Accounted (r : Request) (t : Tally) : Prop :=
  match r.pc with
  | .reading => t = .zero
  | .deciding loaded | .resetting loaded _ => t = .zero ∧ loaded.status = .failed
  | .refreshing _ | .enqueueing _ _ => t = ⟨1, 1, 0⟩
  | .unmarking _ => False
  | .answered answer => t = ⟨1, 1, 1⟩ ∨ t = .zero ∧ answer = r.kind.unchanged

theorem Request.Accounted.once {r : Request} (h : r.Accounted t) : r.Once t := by
  obtain ⟨kind, pc⟩ := r
  have hidle : t = .zero → (∀ answer, pc = .answered answer → answer = kind.unchanged) →
      Request.Once ⟨kind, pc⟩ t := by
    rintro rfl hanswer
    exact ⟨rfl, Nat.zero_le _, Nat.le_refl _, fun answer hpc => ⟨rfl, fun _ => hanswer answer hpc⟩⟩
  cases pc with
  | refreshing stage | enqueueing loaded stage =>
    obtain rfl : t = ⟨1, 1, 0⟩ := h
    exact ⟨rfl, Nat.le_refl _, Nat.zero_le _, nofun⟩
  | unmarking loaded => exact h.elim
  | answered answer =>
    rcases h with rfl | ⟨hzero, hanswer⟩
    · exact ⟨rfl, Nat.le_refl _, Nat.le_refl _, fun _ _ => ⟨rfl, nofun⟩⟩
    · refine hidle hzero fun answer' hpc => ?_
      rwa [← RequestPc.answered.inj hpc]
  | reading => exact hidle h nofun
  | deciding loaded | resetting loaded stage => exact hidle h.1 nofun

/-- Writing the entry status on a failed document is a transition out of `failed`. -/
theorem updateDoc_tally {loaded : DocRow} {stage : Stage} (hloaded : loaded.status = .failed)
    (hw : w.status = some .failed) (h : w.updateDoc loaded stage.entryStatus none = some w') :
    Tally.zero.add w w' = ⟨1, 1, 0⟩ := by
  have hne : stage.entryStatus ≠ .failed := by cases stage <;> decide
  have hentry : w'.status = some stage.entryStatus :=
    updateDoc_status (fun heq => hne (heq.symm.trans hloaded)) h
  obtain ⟨d, -, rfl⟩ := updateDoc_world h
  simp [Tally.add, Tally.zero, hw, hentry, hne]

/-- **An undisturbed step of a request keeps its account right.** -/
theorem requestMoves_accounted {kind : RequestKind} {pc pc' : RequestPc}
    (ht : Request.Accounted ⟨kind, pc⟩ t) (hp : Request.Proceeds w ⟨kind, pc⟩)
    (h : RequestMoves w kind pc w' pc') : Request.Accounted ⟨kind, pc'⟩ (t.add w w') := by
  cases h with
  | missing hgone | refreshGone hgone => exact absurd hgone hp
  | failed _ hfailed =>
    obtain rfl : t = .zero := ht
    exact ⟨Tally.add_self _ _, hfailed⟩
  | unchanged =>
    obtain rfl : t = .zero := ht
    exact Or.inr ⟨Tally.add_self _ _, rfl⟩
  | decide =>
    obtain ⟨rfl, hloaded⟩ := ht
    exact ⟨Tally.add_self _ _, hloaded⟩
  | reset hw =>
    obtain ⟨rfl, hloaded⟩ := ht
    exact updateDoc_tally hloaded hp hw
  | resetGone hgone =>
    have hfailed : w.status = some .failed := hp
    exact absurd hfailed (by simp [World.status, hgone])
  | refresh =>
    obtain rfl : t = ⟨1, 1, 0⟩ := ht
    exact Tally.add_self _ _
  | send =>
    obtain rfl : t = ⟨1, 1, 0⟩ := ht
    exact Or.inl (Tally.add_message _ _ _)
  | unmark | unmarkGone => exact ht.elim

theorem step_accounted (ha : a.All Request.Accounted) (hok : Undisturbed a l)
    (h : a.step A l = some a') : a'.All Request.Accounted := by
  refine step_all ha (fun _ => rfl) ?_ h
  rintro i c ⟨kind, pc⟩ w r' rfl hr hstep ht
  cases c with
  | go =>
    obtain ⟨⟨w₁, pc'⟩, hgo, heq⟩ := Option.map_eq_some_iff.mp hstep
    obtain ⟨rfl, hr'⟩ := Prod.mk.inj heq
    obtain rfl := Party.request.inj hr'
    exact requestMoves_accounted ht (hok _ hr) (goRequest_moves hgo)
  | raise e => exact absurd hr (hok _)
  | reply r => exact nomatch hstep
  | part size => exact nomatch hstep

/-! ## 5. Disturbed requests -/

/-- What is known of an account in any run: nothing is done before the write, and nothing is
sent before the message. -/
def Request.Early (r : Request) (t : Tally) : Prop :=
  match r.pc with
  | .reading => t = .zero
  | .deciding loaded | .resetting loaded _ => t = .zero ∧ loaded.status = .failed
  | .refreshing _ | .enqueueing _ _ | .unmarking _ => t.sent = 0
  | .answered _ => True

theorem updateDoc_sent {loaded : DocRow} {status : DocStatus} {error : Option String}
    (h : w.updateDoc loaded status error = some w') : w'.sent = w.sent := by
  obtain ⟨d, -, rfl⟩ := updateDoc_world h
  rfl

theorem requestMoves_early {kind : RequestKind} {pc pc' : RequestPc}
    (ht : Request.Early ⟨kind, pc⟩ t) (h : RequestMoves w kind pc w' pc') :
    Request.Early ⟨kind, pc'⟩ (t.add w w') := by
  cases h with
  | failed _ hfailed =>
    obtain rfl : t = .zero := ht
    exact ⟨Tally.add_self _ _, hfailed⟩
  | decide =>
    obtain ⟨rfl, hloaded⟩ := ht
    exact ⟨Tally.add_self _ _, hloaded⟩
  | reset hw =>
    obtain ⟨rfl, -⟩ := ht
    simp [Request.Early, Tally.add, Tally.zero, updateDoc_sent hw]
  | refresh =>
    rw [Tally.add_self]
    exact ht
  | _ => trivial

theorem raiseRequest_early {kind : RequestKind} {pc pc' : RequestPc}
    (ht : Request.Early ⟨kind, pc⟩ t) (h : raiseRequest pc = some pc') :
    Request.Early ⟨kind, pc'⟩ t := by
  cases pc with
  | enqueueing loaded stage =>
    obtain rfl := Option.some.inj h
    exact ht
  | answered answer => exact nomatch h
  | _ =>
    obtain rfl := Option.some.inj h
    trivial

theorem step_early (ha : a.All Request.Early) (h : a.step A l = some a') :
    a'.All Request.Early := by
  refine step_all ha (fun _ => rfl) ?_ h
  rintro i c ⟨kind, pc⟩ w r' rfl hr hstep ht
  cases c with
  | go =>
    obtain ⟨⟨w₁, pc'⟩, hgo, heq⟩ := Option.map_eq_some_iff.mp hstep
    obtain ⟨rfl, hr'⟩ := Prod.mk.inj heq
    obtain rfl := Party.request.inj hr'
    exact requestMoves_early ht (goRequest_moves hgo)
  | raise e =>
    obtain ⟨pc', hraise, heq⟩ := Option.map_eq_some_iff.mp hstep
    obtain ⟨rfl, hr'⟩ := Prod.mk.inj heq
    obtain rfl := Party.request.inj hr'
    rw [Tally.add_self]
    exact raiseRequest_early ht hraise
  | reply r => exact nomatch hstep
  | part size => exact nomatch hstep

theorem Request.Early.sent {r : Request} (h : r.Early t) (hpc : ∀ answer, r.pc ≠ .answered answer) :
    t.sent = 0 := by
  obtain ⟨kind, pc⟩ := r
  cases pc with
  | reading =>
    obtain rfl : t = .zero := h
    rfl
  | deciding loaded | resetting loaded stage =>
    obtain ⟨rfl, -⟩ := h
    rfl
  | refreshing stage | enqueueing loaded stage | unmarking loaded => exact h
  | answered answer => exact absurd rfl (hpc answer)

/-- Where a step of the request at `i` leads. -/
def Audited.moved (a : Audited ω) (i : Nat) (w : World ω) (r : Request) : Audited ω where
  sys := ⟨w, a.sys.parties.set i (.request r)⟩
  tally := fun j => if j = i then (a.tally i).add a.sys.shared w else a.tally j

theorem step_request {i : Nat} {c : Choice ω} {r r' : Request}
    (hr : a.sys.parties[i]? = some (.request r))
    (hstep : (Party.request r).step A a.sys.shared c = some (w, .request r')) :
    a.step A (.act i c) = some (a.moved i w r') := by
  have hact : a.sys.step A (.act i c) = some ⟨w, a.sys.parties.set i (.request r')⟩ :=
    Par.act_eq_some.mpr ⟨.request r, w, .request r', hr, hstep, rfl⟩
  rw [Audited.step, hact]
  rfl

theorem step_goRequest {i : Nat} {r : Request} {pc : RequestPc}
    (hr : a.sys.parties[i]? = some (.request r))
    (h : goRequest a.sys.shared r.kind r.pc = some (w, pc)) :
    a.step A (.act i .go) = some (a.moved i w ⟨r.kind, pc⟩) :=
  step_request hr (by simp [Party.step, h])

theorem moved_at {i : Nat} {r r' : Request} (hr : a.sys.parties[i]? = some (.request r)) :
    (a.moved i w r').sys.parties[i]? = some (.request r') := set_self hr

theorem moved_tally (a : Audited ω) (i : Nat) (w : World ω) (r : Request) :
    (a.moved i w r).tally i = (a.tally i).add a.sys.shared w := by simp [Audited.moved]

/-- An answer other than "nothing to do" without a message is a wrong account. -/
theorem answered_breaks {i : Nat} {kind : RequestKind} {answer : Answer}
    (hr : a.sys.parties[i]? = some (.request ⟨kind, .answered answer⟩))
    (hsent : (a.tally i).sent = 0) (hne : answer ≠ kind.unchanged) : ¬ a.Once := by
  intro honce
  obtain ⟨heq, hunchanged⟩ := (honce i _ hr).answered answer rfl
  exact hne (hunchanged (by omega))

/-- After the broker's exception, the request answers although it has sent nothing. -/
theorem unmarking_breaks {i : Nat} {kind : RequestKind} {loaded : DocRow}
    (hr : a.sys.parties[i]? = some (.request ⟨kind, .unmarking loaded⟩))
    (hsent : (a.tally i).sent = 0) :
    ∃ a', a.step A (.act i .go) = some a' ∧ ¬ a'.Once := by
  have haccepted : Answer.accepted ≠ kind.unchanged := by cases kind <;> decide
  have hraised : Answer.raised ≠ kind.unchanged := by cases kind <;> decide
  cases hw : a.sys.shared.updateDoc loaded .failed (some enqueueFailedError) with
  | some w =>
    refine ⟨_, step_goRequest hr (by simp only [goRequest, hw]; rfl), ?_⟩
    refine answered_breaks (moved_at hr) ?_ haccepted
    rw [moved_tally]
    simp [Tally.add, hsent, updateDoc_sent hw]
  | none =>
    refine ⟨_, step_goRequest hr (by simp only [goRequest, hw]; rfl), ?_⟩
    refine answered_breaks (moved_at hr) ?_ hraised
    rw [moved_tally, Tally.add_self, hsent]

/-- **An exception in a request does harm**: the request ends without its message. -/
theorem raise_breaks {i : Nat} {e : Exc} {r : Request} (ha : a.All Request.Early)
    (hr : a.sys.parties[i]? = some (.request r)) (h : a.step A (.act i (.raise e)) = some a') :
    ∃ ls a'', run (Audited.step A) a' ls = some a'' ∧ ¬ a''.Once := by
  obtain ⟨kind, pc⟩ := r
  have hearly := ha.requests i _ hr
  have hraise : ∀ pc', raiseRequest pc = some pc' → a' = a.moved i a.sys.shared ⟨kind, pc'⟩ := by
    intro pc' hpc
    have hstep : a.step A (.act i (.raise e)) = some (a.moved i a.sys.shared ⟨kind, pc'⟩) :=
      step_request hr (by simp [Party.step, hpc])
    exact Option.some.inj (h.symm.trans hstep)
  have hanswered : raiseRequest pc = some (.answered .raised) → (a.tally i).sent = 0 →
      ¬ a'.Once := by
    intro hpc hsent
    obtain rfl := hraise _ hpc
    refine answered_breaks (moved_at hr) ?_ (by cases kind <;> decide)
    rw [moved_tally, Tally.add_self, hsent]
  cases pc with
  | enqueueing loaded stage =>
    obtain rfl := hraise _ rfl
    have hsent : ((a.moved i a.sys.shared ⟨kind, .unmarking loaded⟩).tally i).sent = 0 := by
      rw [moved_tally, Tally.add_self]
      exact hearly
    obtain ⟨a'', hstep, hbad⟩ := unmarking_breaks (A := A) (moved_at hr) hsent
    exact ⟨[.act i .go], a'', by simp [hstep], hbad⟩
  | answered answer =>
    obtain ⟨s, hs, -⟩ := Option.map_eq_some_iff.mp h
    obtain ⟨p, w, q, hp, hstep, -⟩ := Par.act_eq_some.mp hs
    obtain rfl := Option.some.inj (hr.symm.trans hp)
    exact absurd hstep (by simp [Party.step, raiseRequest])
  | _ => exact ⟨[], a', rfl, hanswered rfl (hearly.sent (by rintro _ ⟨⟩))⟩

/-- A request that has written without a transition goes on to send its message. -/
theorem refreshing_breaks {i : Nat} {kind : RequestKind} {stage : Stage}
    (hr : a.sys.parties[i]? = some (.request ⟨kind, .refreshing stage⟩))
    (hdoc : a.sys.shared.doc.isSome = true) (hfreed : (a.tally i).freed = 0) :
    ∃ a₁ a₂, a.step A (.act i .go) = some a₁ ∧ a₁.step A (.act i .go) = some a₂ ∧ ¬ a₂.Once := by
  obtain ⟨d, hd⟩ := Option.isSome_iff_exists.mp hdoc
  have hgo : goRequest a.sys.shared kind (.refreshing stage) =
      some (a.sys.shared, .enqueueing d stage) := by simp only [goRequest, hd]
  have hsend : goRequest a.sys.shared kind (.enqueueing d stage) =
      some ({ a.sys.shared with sent := a.sys.shared.sent ++ [{ stage := stage }] },
        .answered .accepted) := rfl
  refine ⟨_, _, step_goRequest hr hgo, step_goRequest (moved_at hr) hsend, fun honce => ?_⟩
  have heq := ((honce i _ (moved_at (moved_at hr))).answered .accepted rfl).1
  rw [moved_tally, moved_tally, Tally.add_self] at heq
  have hacc := Tally.add_message (a.tally i) a.sys.shared { stage := stage }
  have hsent := congrArg Tally.sent hacc
  have hkept := congrArg Tally.freed hacc
  have hone : (a.tally i).sent + 1 = (a.tally i).freed := hsent.symm.trans (heq.trans hkept)
  omega

/-- **The write on a document that is no longer failed does harm**: the request sends the message
of a restart that it has not made. -/
theorem reset_breaks {i : Nat} {kind : RequestKind} {loaded : DocRow} {stage : Stage}
    (ha : a.All Request.Early)
    (hr : a.sys.parties[i]? = some (.request ⟨kind, .resetting loaded stage⟩))
    (hne : a.sys.shared.status ≠ some .failed) (h : a.step A (.act i .go) = some a') :
    ∃ ls a'', run (Audited.step A) a' ls = some a'' ∧ ¬ a''.Once := by
  obtain ⟨hzero, -⟩ : a.tally i = .zero ∧ loaded.status = .failed := ha.requests i _ hr
  cases hw : a.sys.shared.updateDoc loaded stage.entryStatus none with
  | none =>
    have hgo : goRequest a.sys.shared kind (.resetting loaded stage) =
        some (a.sys.shared, .answered .raised) := by simp only [goRequest, hw]
    obtain rfl := Option.some.inj (h.symm.trans (step_goRequest hr hgo))
    have hraised : Answer.raised ≠ kind.unchanged := by cases kind <;> decide
    refine ⟨[], _, rfl, answered_breaks (moved_at hr) ?_ hraised⟩
    rw [moved_tally, Tally.add_self, hzero]
    rfl
  | some w =>
    have hgo : goRequest a.sys.shared kind (.resetting loaded stage) =
        some (w, .refreshing stage) := by simp only [goRequest, hw]
    obtain rfl := Option.some.inj (h.symm.trans (step_goRequest hr hgo))
    have hdoc : w.doc.isSome = true := by
      obtain ⟨d, -, rfl⟩ := Option.map_eq_some_iff.mp hw
      rfl
    have hfreed : ((a.moved i w ⟨kind, .refreshing stage⟩).tally i).freed = 0 := by
      rw [moved_tally, hzero]
      simp [Tally.add, Tally.zero, hne]
    obtain ⟨a₁, a₂, hstep₁, hstep₂, hbad⟩ :=
      refreshing_breaks (A := A) (moved_at hr) hdoc hfreed
    exact ⟨[.act i .go, .act i .go], a₂, by simp [hstep₁, hstep₂], hbad⟩

/-- **Every disturbance does harm.** -/
theorem disturbed_breaks (ha : a.All Request.Early) (hd : ¬ Undisturbed a l)
    (h : a.step A l = some a') :
    ∃ ls a'', run (Audited.step A) a' ls = some a'' ∧ ¬ a''.Once := by
  cases l with
  | act i c =>
    cases c with
    | go =>
      obtain ⟨⟨kind, pc⟩, hr, hno⟩ : ∃ r, a.sys.parties[i]? = some (.request r) ∧
          ¬ r.Proceeds a.sys.shared := by simpa [Undisturbed] using hd
      have hearly := ha.requests i _ hr
      -- a request that misses the row answers at once
      have hmissed : ∀ answer, goRequest a.sys.shared kind pc =
          some (a.sys.shared, .answered answer) → (a.tally i).sent = 0 →
          answer ≠ kind.unchanged → ¬ a'.Once := by
        intro answer hgo hsent hne
        obtain rfl := Option.some.inj (h.symm.trans (step_goRequest hr hgo))
        refine answered_breaks (moved_at hr) ?_ hne
        rw [moved_tally, Tally.add_self, hsent]
      cases pc with
      | reading =>
        have hdoc : a.sys.shared.doc = none := not_not.mp hno
        exact ⟨[], a', rfl, hmissed .notFound (by simp only [goRequest, hdoc])
          (hearly.sent nofun) (by cases kind <;> decide)⟩
      | refreshing stage =>
        have hdoc : a.sys.shared.doc = none := not_not.mp hno
        exact ⟨[], a', rfl, hmissed .raised (by simp [goRequest, hdoc]) hearly
          (by cases kind <;> decide)⟩
      | resetting loaded stage => exact reset_breaks ha hr hno h
      | _ => exact absurd trivial hno
    | raise e =>
      obtain ⟨r, hr⟩ : ∃ r, a.sys.parties[i]? = some (.request r) := by
        simpa [Undisturbed] using hd
      exact raise_breaks ha hr h
    | reply r => exact absurd trivial hd
    | part size => exact absurd trivial hd
  | _ => exact absurd trivial hd

/-! ## 6. The result -/

/-- **A failed document is restarted once, exactly where requests do not overtake each other.**
From any state of a document, with any executions in flight, in every run in which each write of
an entry status finds the document `failed`, no request misses the row and nothing raises in a
request, every request keeps a right account in every state; and every run with a step that
breaks this condition can go on to a state with a wrong account. -/
theorem restarted_once (A : Adapters) (w : World ω) (tasks : List (Exec ω)) :
    (∀ (ls : List (Label ω)) (a : Audited ω),
      Guarded (Audited.step A) Undisturbed (w.audited tasks) ls →
      run (Audited.step A) (w.audited tasks) ls = some a → a.Once) ∧
    (∀ (ls : List (Label ω)) (a a' : Audited ω) (l : Label ω),
      run (Audited.step A) (w.audited tasks) ls = some a → a.step A l = some a' →
      ¬ Undisturbed a l →
      ∃ ls' a'', run (Audited.step A) (w.audited tasks) (ls ++ l :: ls') = some a'' ∧
        ¬ a''.Once) := by
  constructor
  · intro ls a hg hrun i r hr
    have hall : a.All Request.Accounted := run_invariant
      (fun _ _ _ ha hok h => step_accounted ha hok h) (all_audited _ w tasks) hg hrun
    exact (hall.requests i r hr).once
  · intro ls a a' l hrun hl hd
    have hall : a.All Request.Early := run_invariant_of_step
      (fun _ _ _ ha h => step_early ha h) (all_audited _ w tasks) hrun
    obtain ⟨ls', a'', hrun', hbad⟩ := disturbed_breaks hall hd hl
    exact ⟨ls', a'', run_append_eq_some.mpr ⟨a, hrun, by simp [hl, hrun']⟩, hbad⟩

/-- What an upload leaves whose message the broker refused. -/
def refusedUpload : World Nat :=
  let w : World Nat := sampleUpload.world
  { w with
    doc := w.doc.map fun d => { d with status := .failed, error := some enqueueFailedError } }

/-- Two retries one after the other: the second one finds nothing to restart. -/
theorem restarted_once_twice :
    ∃ a, run (Audited.step sampleAdapters) (refusedUpload.audited [])
        ([.request .retry] ++ List.replicate 5 (.act 0 .go) ++ [.request .retry, .act 1 .go])
          = some a ∧ a.tally 0 = ⟨1, 1, 1⟩ ∧ a.tally 1 = .zero ∧ a.Once := by
  have hend : (run (Audited.step sampleAdapters) (refusedUpload.audited [])
      ([.request .retry] ++ List.replicate 5 (.act 0 .go) ++ [.request .retry, .act 1 .go])).map
        (fun a => (a.tally 0, a.tally 1)) = some (⟨1, 1, 1⟩, .zero) := by decide
  obtain ⟨a, ha, heq⟩ := Option.map_eq_some_iff.mp hend
  obtain ⟨hfirst, hsecond⟩ := Prod.mk.inj heq
  exact ⟨a, ha, hfirst, hsecond,
    (restarted_once sampleAdapters refusedUpload []).1 _ a (by decide) ha⟩

/-- **Two retries restart the document twice.**  Both read `failed`; the second write comes after
the first request's message. -/
theorem not_restarted_once :
    ¬ ∀ (A : Adapters) (w : World Nat) (ls : List (Label Nat)) (a : Audited Nat),
      w.status = some .failed → run (Audited.step A) (w.audited []) ls = some a → a.Once := by
  intro h
  have hend : (run (Audited.step sampleAdapters) (refusedUpload.audited [])
      ([.request .retry, .request .retry, .act 0 .go, .act 1 .go] ++
        List.replicate 4 (.act 0 .go) ++ List.replicate 4 (.act 1 .go))).map
      (fun a => (a.tally 1, a.sys.parties[1]?.map Party.isTask)) =
        some (⟨0, 0, 1⟩, some false) := by decide
  obtain ⟨a, ha, heq⟩ := Option.map_eq_some_iff.mp hend
  obtain ⟨htally, hparty⟩ := Prod.mk.inj heq
  obtain ⟨p, hp, hrequest⟩ := Option.map_eq_some_iff.mp hparty
  cases p with
  | task x => exact nomatch hrequest
  | request r =>
    have hsent := (h _ _ _ a rfl ha 1 r hp).sent
    rw [htally] at hsent
    exact absurd hsent (by decide)

end AtlasKnowledge.Pipeline
