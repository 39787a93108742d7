/-
# Two sends on one `useChatStream`

The status is no longer `streaming` from the last event of a stream on, while its `send` still has
to come back from the loop and run its `finally`.  `MessageInput` lets the next message go out
before that, so two calls of `send` work on the same refs and on the same `controller`.

* `observed_iff`: which steps of the first call are not seen;
* `sends_independent`: exactly when the second call is as it would be if the first one had ended
  before it began;
* `not_independent`: the first call ends behind the start of the second one.
-/
import AtlasKnowledge.Frontend.MessagesCache
import Mathlib.Logic.Function.Basic

namespace AtlasKnowledge.Frontend.Sends

open Transition

/-! ## 1. One instance and its calls -/

inductive Sender where
  | first | second
  deriving DecidableEq, Repr

/-- The refs, the entry of the cache, the `AbortController` of which call is in `controller`, which
controllers are aborted, and the local variables of the calls in progress. -/
structure Instance where
  refs : ChatStream := {}
  cache : Option MessagesCache := none
  controller : Option Sender := none
  aborted : Sender → Bool := fun _ => false
  calls : Sender → Option Call := fun _ => none

/-- The refs and the local variables of a call. -/
def Instance.acting (s : Instance) (call : Call) : ChatStream := { s.refs with call := some call }

/-- What a step of a call has made of them. -/
def Instance.settle (s : Instance) (who : Sender) (stream : ChatStream) (patch : Option Patch) :
    Instance :=
  { s with
    refs := { stream with call := none }
    cache := patched s.cache patch
    calls := Function.update s.calls who stream.call }

/-- `submit` of `MessageInput`, and `send` up to the request. -/
def Instance.submit (s : Instance) (who : Sender) (now content clientMessageId : Text) :
    Option Instance :=
  if content = [] ∨ s.refs.status = .streaming ∨ s.calls who ≠ none then none
  else
    let r := s.refs.start now content clientMessageId
    some
      { s.settle who r.1 (some r.2) with
        controller := some who
        aborted := Function.update s.aborted who false }

inductive Label where
  | event (who : Sender) (now : Text) (ev : StreamEvent)
  /-- The stream ends, or the loop is left by an exception. -/
  | close (who : Sender) (thrown : Option Thrown)
  | abort
  deriving DecidableEq, Repr

/-- A step of the call that was first. -/
def Label.isFirst : Label → Bool
  | .event .first _ _ | .close .first _ => true
  | .event .second _ _ | .close .second _ | .abort => false

/-- A stream is left by an `AbortError` only when its controller is aborted. -/
def step (s : Instance) : Label → Option Instance
  | .event who now ev => (s.calls who).map fun call =>
    let r := (s.acting call).onEvent call now ev
    s.settle who r.1 r.2
  | .close who thrown =>
    if thrown = some .abort ∧ s.aborted who = false then none
    else (s.calls who).map fun call =>
      { s.settle who ((s.acting call).onThrown thrown).onFinally none with controller := none }
  | .abort =>
    match s.controller with
    | none => some s
    | some who => some { s with aborted := Function.update s.aborted who true }

/-! ## 2. What is seen of the second call -/

/-- The four refs, what `abort` would abort, and whether the second call is aborted. -/
structure Observed where
  status : ChatStatus
  streamingText : Text
  streamingCitations : List CitationOut
  errorMessage : Option Text
  controller : Option Sender
  aborted : Bool
  deriving DecidableEq, Repr

def Instance.observed (s : Instance) : Observed :=
  ⟨s.refs.status, s.refs.streamingText, s.refs.streamingCitations, s.refs.errorMessage,
    s.controller, s.aborted .second⟩

/-- The first call has ended, now or before. -/
def Ended (s ended : Instance) : Prop :=
  (s.calls .first = none ∧ ended = s) ∨ ∃ thrown, step s (.close .first thrown) = some ended

/-- A step of the first call writes nothing but what is there.  Its end finds the second call ended,
with the same outcome if it is an exception. -/
def Harmless (s : Instance) : Label → Prop
  | .event .first _ (.citations items) => items = s.refs.streamingCitations
  | .event .first _ (.delta text) => text = []
  | .event .first _ (.done _) => s.refs.status = .done
  | .event .first _ (.error text) => s.refs.status = .error ∧ s.refs.errorMessage = some text
  | .close .first thrown =>
    s.controller = none ∧ s.refs.streamingText = [] ∧ s.refs.streamingCitations = [] ∧
      match thrown with
      | none => s.refs.status ≠ .streaming
      | some .abort => s.refs.status = .idle
      | some (.error text) => s.refs.status = .error ∧ s.refs.errorMessage = some text
      | some .other => s.refs.status = .error ∧ s.refs.errorMessage = some "傳送失敗".toList
  | _ => True

instance (s : Instance) : ∀ l, Decidable (Harmless s l)
  | .event .first _ (.citations items) => inferInstanceAs (Decidable (items = _))
  | .event .first _ (.delta text) => inferInstanceAs (Decidable (text = []))
  | .event .first _ (.done _) => inferInstanceAs (Decidable (s.refs.status = .done))
  | .event .first _ (.error _) => inferInstanceAs (Decidable (_ ∧ _))
  | .event .first _ (.messageStart _) | .event .first _ .unknown => .isTrue trivial
  | .close .first none => inferInstanceAs (Decidable (_ ∧ _ ∧ _ ∧ _))
  | .close .first (some .abort) => inferInstanceAs (Decidable (_ ∧ _ ∧ _ ∧ _))
  | .close .first (some (.error _)) => inferInstanceAs (Decidable (_ ∧ _ ∧ _ ∧ _ ∧ _))
  | .close .first (some .other) => inferInstanceAs (Decidable (_ ∧ _ ∧ _ ∧ _ ∧ _))
  | .event .second _ _ | .close .second _ | .abort => .isTrue trivial

variable {s s' r : Instance} {l : Label}

/-- The end of a call. -/
theorem close_eq_some {who : Sender} {thrown : Option Thrown} :
    step s (.close who thrown) = some s' ↔
      ¬(thrown = some .abort ∧ s.aborted who = false) ∧ ∃ call, s.calls who = some call ∧
        { s.settle who ((s.acting call).onThrown thrown).onFinally none with
          controller := none } = s' := by
  simp only [step]
  split_ifs with h
  · exact iff_of_false nofun fun hs' => hs'.1 h
  · rw [Option.map_eq_some_iff, and_iff_right h]

/-- A step of the first call is an event or the end. -/
theorem isFirst_cases (h : l.isFirst = true) :
    (∃ now ev, l = .event .first now ev) ∨ ∃ thrown, l = .close .first thrown := by
  cases l with
  | event who now ev =>
    cases who with
    | first => exact .inl ⟨now, ev, rfl⟩
    | second => cases h
  | close who thrown =>
    cases who with
    | first => exact .inr ⟨thrown, rfl⟩
    | second => cases h
  | abort => cases h

/-- What is seen behind the `finally` of a call. -/
theorem observed_onFinally (s : Instance) (who : Sender) (stream : ChatStream) :
    ({ s.settle who stream.onFinally none with controller := none } : Instance).observed =
      ⟨if stream.status = .streaming then .error else stream.status, [], [],
        if stream.status = .streaming then some "連線中斷,請重新送出".toList
        else stream.errorMessage, none, s.aborted .second⟩ := by
  unfold ChatStream.onFinally
  by_cases hstatus : stream.status = .streaming
  · simp [Instance.observed, Instance.settle, hstatus]
  · simp [Instance.observed, Instance.settle, hstatus]

/-- **A step of the first call is not seen exactly if** it is harmless. -/
theorem observed_iff (h : step s l = some s') (hfirst : l.isFirst = true) :
    s'.observed = s.observed ↔ Harmless s l := by
  obtain ⟨now, ev, rfl⟩ | ⟨thrown, rfl⟩ := isFirst_cases hfirst
  · obtain ⟨call, -, rfl⟩ := Option.map_eq_some_iff.mp h
    cases ev <;>
      simp [Instance.observed, Instance.settle, Instance.acting, ChatStream.onEvent, Harmless,
        eq_comm, and_comm]
  · obtain ⟨-, call, -, rfl⟩ := close_eq_some.mp h
    rw [observed_onFinally]
    rcases thrown with _ | _ | text | _
    · by_cases hstatus : s.refs.status = .streaming
      · simp [ChatStream.onThrown, Instance.acting, Instance.observed, Harmless, hstatus]
      · simp [ChatStream.onThrown, Instance.acting, Instance.observed, Harmless, hstatus]
        tauto
    · simp [ChatStream.onThrown, Instance.acting, Instance.observed, Harmless]
      tauto
    · simp [ChatStream.onThrown, Instance.acting, Instance.observed, Harmless]
      tauto
    · simp [ChatStream.onThrown, Instance.acting, Instance.observed, Harmless]
      tauto

theorem calls_settle_first (s : Instance) (stream : ChatStream) (patch : Option Patch) :
    (s.settle .first stream patch).calls .second = s.calls .second := by
  show Function.update s.calls .first stream.call .second = _
  exact Function.update_of_ne (by decide) _ _

/-- A step of the first call leaves the local variables of the second one alone. -/
theorem calls_second (h : step s l = some s') (hfirst : l.isFirst = true) :
    s'.calls .second = s.calls .second := by
  obtain ⟨now, ev, rfl⟩ | ⟨thrown, rfl⟩ := isFirst_cases hfirst
  · obtain ⟨call, -, rfl⟩ := Option.map_eq_some_iff.mp h
    exact calls_settle_first s _ _
  · obtain ⟨-, call, -, rfl⟩ := close_eq_some.mp h
    exact calls_settle_first s ((s.acting call).onThrown thrown).onFinally none

/-! ## 3. Side by side -/

/-- The same is seen of the second call, and its local variables are the same. -/
structure Same (s r : Instance) : Prop where
  observed : s.observed = r.observed
  calls : s.calls .second = r.calls .second

theorem Same.of_first (hsame : Same s r) (h : step s l = some s') (hfirst : l.isFirst = true)
    (hharmless : Harmless s l) : Same s' r :=
  ⟨((observed_iff h hfirst).mpr hharmless).trans hsame.observed,
    (calls_second h hfirst).trans hsame.calls⟩

theorem onThrown_congr {a b : ChatStream} (hstatus : a.status = b.status)
    (herror : a.errorMessage = b.errorMessage) (thrown : Option Thrown) :
    (a.onThrown thrown).status = (b.onThrown thrown).status ∧
      (a.onThrown thrown).errorMessage = (b.onThrown thrown).errorMessage := by
  rcases thrown with _ | _ | text | _
  · exact ⟨hstatus, herror⟩
  · exact ⟨rfl, herror⟩
  · exact ⟨rfl, rfl⟩
  · exact ⟨rfl, rfl⟩

/-- A step of the second call, or `abort`, is the same on both sides. -/
theorem Same.next (hsame : Same s r) (h : step s l = some s') (hsecond : l.isFirst = false) :
    ∃ r', step r l = some r' ∧ Same s' r' := by
  obtain ⟨hobserved, hcalls⟩ := hsame
  simp only [Instance.observed, Observed.mk.injEq] at hobserved
  obtain ⟨hstatus, htext, hcitations, herror, hcontroller, haborted⟩ := hobserved
  cases l with
  | event who now ev =>
    cases who with
    | first => exact nomatch hsecond
    | second =>
      obtain ⟨call, hcall, rfl⟩ := Option.map_eq_some_iff.mp h
      refine ⟨_, Option.map_eq_some_iff.mpr ⟨call, hcalls ▸ hcall, rfl⟩, ?_, ?_⟩
      · cases ev <;>
          simp [Instance.observed, Instance.settle, Instance.acting, ChatStream.onEvent, hstatus,
            htext, hcitations, herror, hcontroller, haborted]
      · cases ev <;> simp [Instance.settle, Instance.acting, ChatStream.onEvent]
  | close who thrown =>
    cases who with
    | first => exact nomatch hsecond
    | second =>
      obtain ⟨habort, call, hcall, rfl⟩ := close_eq_some.mp h
      have hthrown := onThrown_congr (a := s.acting call) (b := r.acting call) hstatus herror thrown
      refine ⟨_, close_eq_some.mpr ⟨haborted ▸ habort, call, hcalls ▸ hcall, rfl⟩, ?_, ?_⟩
      · rw [observed_onFinally, observed_onFinally, haborted, hthrown.1, hthrown.2]
      · simp only [Instance.settle, ChatStream.onFinally, Function.update_self]
  | abort =>
    simp only [step] at h ⊢
    rw [← hcontroller]
    cases hwho : s.controller with
    | none =>
      rw [hwho] at h
      obtain rfl := Option.some.inj h
      exact ⟨r, rfl, by simp [Instance.observed, hstatus, htext, hcitations, herror, hcontroller,
        haborted], hcalls⟩
    | some who =>
      rw [hwho] at h
      obtain rfl := Option.some.inj h
      refine ⟨_, rfl, ?_, hcalls⟩
      cases who <;>
        simp [Instance.observed, hstatus, htext, hcitations, herror, haborted]

/-- The steps without those of the first call. -/
def others (labels : List Label) : List Label := labels.filter fun l => !l.isFirst

/-- The run without the first call, as long as that is harmless. -/
theorem Same.runs (hsame : Same s r) {labels : List Label}
    (hguarded : Guarded step Harmless s labels) (hrun : run step s labels = some s') :
    ∃ r', run step r (others labels) = some r' ∧ Same s' r' := by
  induction labels generalizing s r with
  | nil =>
    obtain rfl := Option.some.inj hrun
    exact ⟨r, rfl, hsame⟩
  | cons l labels ih =>
    obtain ⟨s₁, hstep, hrest⟩ := Option.bind_eq_some_iff.mp hrun
    cases hfirst : l.isFirst with
    | true =>
      obtain ⟨r', hr', hlast⟩ := ih (hsame.of_first hstep hfirst hguarded.1) (hguarded.2 s₁ hstep)
        hrest
      exact ⟨r', by simpa [others, hfirst] using hr', hlast⟩
    | false =>
      obtain ⟨r₁, hr₁, hsame₁⟩ := hsame.next hstep hfirst
      obtain ⟨r', hr', hlast⟩ := ih hsame₁ (hguarded.2 s₁ hstep) hrest
      refine ⟨r', ?_, hlast⟩
      have hothers : others (l :: labels) = l :: others labels := by simp [others, hfirst]
      rw [hothers, run_cons, hr₁]
      exact hr'

/-- What is seen at every moment is what is seen without the first call. -/
def Undisturbed (s r : Instance) (labels : List Label) : Prop :=
  ∀ front back s', labels = front ++ back → run step s front = some s' →
    ∃ r', run step r (others front) = some r' ∧ s'.observed = r'.observed

theorem guarded_of_undisturbed (hsame : Same s r) {labels : List Label}
    (hrun : run step s labels = some s') (h : Undisturbed s r labels) :
    Guarded step Harmless s labels := by
  refine guarded_of_reached hrun fun front l back s₁ s₂ hlabels hguarded hfront hl => ?_
  cases hfirst : l.isFirst with
  | false =>
    cases l with
    | event who | close who =>
      cases who with
      | first => cases hfirst
      | second => trivial
    | abort => trivial
  | true =>
    -- up to here nothing was disturbed, and the other run does not move
    obtain ⟨r₁, hr₁, hsame₁⟩ := hsame.runs hguarded hfront
    obtain ⟨r₂, hr₂, hseen⟩ := h (front ++ [l]) back s₂ (by rw [hlabels, List.append_assoc]; rfl)
      (run_append_eq_some.mpr ⟨s₁, hfront, by simp [hl]⟩)
    have hothers : others (front ++ [l]) = others front := by
      simp [others, List.filter_append, hfirst]
    rw [hothers, hr₁] at hr₂
    obtain rfl := Option.some.inj hr₂
    exact (observed_iff hl hfirst).mp (hseen.trans hsame₁.observed.symm)

/-! ## 4. The start of the second call -/

theorem submit_eq_some {who : Sender} {now content clientMessageId : Text} :
    s.submit who now content clientMessageId = some s' ↔
      (content ≠ [] ∧ s.refs.status ≠ .streaming ∧ s.calls who = none) ∧
        { s.settle who (s.refs.start now content clientMessageId).1
            (some (s.refs.start now content clientMessageId).2) with
          controller := some who
          aborted := Function.update s.aborted who false } = s' := by
  unfold Instance.submit
  split_ifs with h
  · refine iff_of_false nofun fun hs' => ?_
    rcases h with h | h | h
    · exact hs'.1.1 h
    · exact hs'.1.2.1 h
    · exact h hs'.1.2.2
  · simp only [not_or, not_not] at h
    exact ⟨fun hs' => ⟨h, Option.some.inj hs'⟩, fun hs' => congrArg some hs'.2⟩

/-- The second call begins in the same way if the first one has ended. -/
theorem submit_same {ended : Instance} {now content clientMessageId : Text}
    (hsend : s.submit .second now content clientMessageId = some s') (hended : Ended s ended) :
    ∃ r, ended.submit .second now content clientMessageId = some r ∧ Same s' r := by
  obtain ⟨⟨hcontent, hstatus, hcalls⟩, rfl⟩ := submit_eq_some.mp hsend
  have hready : ended.refs.status ≠ .streaming ∧ ended.calls .second = none := by
    rcases hended with ⟨-, rfl⟩ | ⟨thrown, hclose⟩
    · exact ⟨hstatus, hcalls⟩
    · refine ⟨?_, (calls_second hclose rfl).trans hcalls⟩
      obtain ⟨-, call, -, rfl⟩ := close_eq_some.mp hclose
      have hseen := congrArg Observed.status
        (observed_onFinally s .first ((s.acting call).onThrown thrown))
      refine hseen.trans_ne ?_
      split_ifs with hstreaming
      · exact nofun
      · exact hstreaming
  refine ⟨_, submit_eq_some.mpr ⟨⟨hcontent, hready⟩, rfl⟩, ?_, ?_⟩
  · simp [Instance.observed, Instance.settle, ChatStream.start]
  · simp [Instance.settle, ChatStream.start]

/-! ## 5. The result -/

/-- `abort` aborts the second call as long as it is in progress. -/
def Abortable (s : Instance) : Prop := s.calls .second ≠ none → s.controller = some .second

theorem Abortable.next (habortable : Abortable s) (hharmless : Harmless s l)
    (h : step s l = some s') : Abortable s' := by
  cases l with
  | event who now ev =>
    obtain ⟨call, hcall, rfl⟩ := Option.map_eq_some_iff.mp h
    intro hcalls
    cases who with
    | first => exact habortable (calls_settle_first s _ _ ▸ hcalls)
    | second => exact habortable (by rw [hcall]; exact nofun)
  | close who thrown =>
    obtain ⟨-, call, hcall, rfl⟩ := close_eq_some.mp h
    intro hcalls
    cases who with
    | first =>
      have hbefore := habortable
        (calls_settle_first s ((s.acting call).onThrown thrown).onFinally none ▸ hcalls)
      exact nomatch hharmless.1.symm.trans hbefore
    | second =>
      refine absurd ?_ hcalls
      simp only [Instance.settle, ChatStream.onFinally, Function.update_self]
  | abort =>
    simp only [step] at h
    split at h
    · obtain rfl := Option.some.inj h
      exact habortable
    · obtain rfl := Option.some.inj h
      exact habortable

/-- **The second call is as it would be if the first one had ended before it began, at every moment,
exactly if** every step that the first one still takes is harmless.  Then `abort` aborts the second
call as long as it is in progress. -/
theorem sends_independent {s₀ ended last : Instance} {now content clientMessageId : Text}
    {labels : List Label} (hsend : s.submit .second now content clientMessageId = some s₀)
    (hended : Ended s ended) (hrun : run step s₀ labels = some last) :
    ∃ r₀, ended.submit .second now content clientMessageId = some r₀ ∧
      (Guarded step Harmless s₀ labels ↔ Undisturbed s₀ r₀ labels) ∧
      (Guarded step Harmless s₀ labels → ∀ front back s', labels = front ++ back →
        run step s₀ front = some s' → Abortable s') := by
  obtain ⟨r₀, hr₀, hsame⟩ := submit_same hsend hended
  refine ⟨r₀, hr₀, ⟨fun hguarded => ?_, guarded_of_undisturbed hsame hrun⟩, fun hguarded => ?_⟩
  · rintro front back s' rfl hfront
    obtain ⟨r', hr', hlast⟩ := hsame.runs (guarded_append.mp hguarded).1 hfront
    exact ⟨r', hr', hlast.observed⟩
  · rintro front back s' rfl hfront
    have hstart : Abortable s₀ := by
      obtain ⟨-, rfl⟩ := submit_eq_some.mp hsend
      exact fun _ => rfl
    exact run_invariant (fun _ _ _ habortable hharmless hstep => habortable.next hharmless hstep)
      hstart (guarded_append.mp hguarded).1 hfront

/-! ### The first call ends behind the start of the second -/

/-- A first call with its answer, whose loop has not come back. -/
def answered : Option Instance := do
  let s ← ({} : Instance).submit .first "1".toList "q".toList "a".toList
  run step s
    [.event .first "2".toList (.messageStart ⟨"u".toList, "m".toList⟩),
      .event .first "3".toList (.done ⟨"m".toList, "stop".toList, none, none, 5⟩)]

def Instance.resubmit (s : Instance) : Option Instance :=
  s.submit .second "4".toList "r".toList "b".toList

/-- The second call has its answer and ends, and then the first one does. -/
def late : List Label :=
  [.event .second "5".toList (.delta "x".toList),
    .event .second "6".toList (.done ⟨"n".toList, "stop".toList, none, none, 5⟩),
    .close .second none, .close .first none]

theorem sends_independent_late :
    ∃ s s₀ ended r₀, answered = some s ∧ s.resubmit = some s₀ ∧
      step s (.close .first none) = some ended ∧ ended.resubmit = some r₀ ∧
      Undisturbed s₀ r₀ late := by
  have hlate {s s₀ ended r₀ last : Instance} (hsend : s.resubmit = some s₀)
      (hended : step s (.close .first none) = some ended) (hr₀ : ended.resubmit = some r₀)
      (hrun : run step s₀ late = some last) (hguarded : Guarded step Harmless s₀ late) :
      Undisturbed s₀ r₀ late := by
    obtain ⟨r, hr, hiff, -⟩ := sends_independent hsend (.inr ⟨none, hended⟩) hrun
    obtain rfl := Option.some.inj (hr.symm.trans hr₀)
    exact hiff.mp hguarded
  have hended : step (answered.getD {}) (.close .first none)
      = some ((step (answered.getD {}) (.close .first none)).getD {}) := rfl
  exact ⟨_, _, _, _, rfl, rfl, hended, rfl, @hlate (answered.getD {}) _ _ _ _ rfl hended rfl rfl
    (by decide)⟩

/-- The first call ends while the second one is in progress: it is shown as failed, and `abort` does
nothing. -/
theorem not_independent :
    ∃ s s₀ ended r₀ s', answered = some s ∧ s.resubmit = some s₀ ∧
      step s (.close .first none) = some ended ∧ ended.resubmit = some r₀ ∧
      run step s₀ [.close .first none] = some s' ∧ s'.observed ≠ r₀.observed ∧
      step s' .abort = some s' ∧ s'.calls .second ≠ none := by
  refine ⟨_, _, _, _, _, rfl, rfl, rfl, rfl, rfl, by decide, rfl, by decide⟩

end AtlasKnowledge.Frontend.Sends
