/-
# What the client has been shown is stored

With an available database and a provider that keeps its contract, the text of every delta that a
response has yielded is stored in the end, however the client goes away: `produce` cancels its
generator at an `await` only, where the handler of the stream saves the partial in the background,
unless the cancellation reaches the saving behind the stream.

* `shown_saved`: the result;
* `Kept`: the turn is undisturbed, or its text is covered.
-/
import AtlasKnowledge.Chat.Delivery
import AtlasKnowledge.Chat.Disconnect

namespace AtlasKnowledge.Chat.Source

open Transition

variable {cfg : Config} {db db' : Db} {t t' : Turn} {c : Choice} {r r' : Response} {l : Label}

/-! ## 1. One step of the turn -/

/-- The provider's iterator raises; it is to yield a `StreamError` instead. -/
def raises : Choice → Bool
  | .provider .raised _ => true
  | _ => false

/-- The turn is undisturbed, or it has ended and its text is stored or going to be. -/
def Kept (s : Db × Turn) : Prop :=
  (s.2.pc.isEnded = false ∧ Undisturbed s) ∨
    (s.2.pc.isEnded = true ∧ (deltasOf s.2.emitted ≠ [] → Covered (deltasOf s.2.emitted) s))

/-- The generator does not end before it has yielded its last event. -/
theorem awaits_or_yields (hpc : isSuspended t.pc = true) (hc : isAwaited c = true)
    (hraises : raises c = false) (h : t.step cfg db c = some (db', t')) :
    t'.pc.isEnded = false := by
  have hafter : ∀ {txn} saved, t.saving cfg = some txn →
    (t.afterSave saved).pc.isEnded = false := by
    intro txn saved hsaving
    unfold Turn.afterSave
    cases hcase : t.pc with
    | saveRetrievalError code message => rfl
    | saveStreamError f code message => rfl
    | saveSuccess f latencyMs => cases saved <;> rfl
    | closing f => simp [hcase, isSuspended] at hpc
    | _ => simp [Turn.saving, hcase] at hsaving
  cases c with
  | retrieved r =>
    have hmoved := (step_moved h).2
    unfold Turn.retrieved at hmoved
    split at hmoved
    · cases r with
      | chunks chunks =>
        simp only at hmoved
        split at hmoved <;> obtain rfl := Option.some.inj hmoved <;> rfl
      | _ =>
        obtain rfl := Option.some.inj hmoved
        rfl
    · cases hmoved
  | provider step latencyMs =>
    have hmoved := (step_moved h).2
    unfold Turn.provided at hmoved
    split at hmoved
    · cases step with
      | event ev =>
        cases ev <;>
        · obtain rfl := Option.some.inj hmoved
          rfl
      | finished =>
        obtain rfl := Option.some.inj hmoved
        rfl
      | raised => cases hraises
    · cases hmoved
  | commit =>
    obtain ⟨txn, htxn, heq⟩ := Option.map_eq_some_iff.mp h
    split at heq <;> obtain ⟨-, rfl⟩ := Prod.mk.inj heq <;> exact hafter _ htxn
  | fail lost =>
    obtain ⟨txn, htxn, heq⟩ := Option.map_eq_some_iff.mp h
    obtain ⟨-, rfl⟩ := Prod.mk.inj heq
    exact hafter false htxn
  | _ => cases hc

/-- Behind the last `yield` the text is stored. -/
theorem covered_returned (hs : Undisturbed (db, t))
    (hsaved : Saved db t (deltasOf t.emitted)) :
    Covered (deltasOf t.emitted) (db, { t with pc := .ended .returned }) where
  pc := .inl ⟨_, rfl⟩
  messages := fun m hm => (hsaved.keeps m hm).congr rfl
  unsettled := by
    have hnil : t.unsettled = [] := hs.unsettled
    simp [hnil]
  background := by
    have hnil : t.background = [] := hs.background
    simp [hnil]
  source := .inl hsaved.some

theorem kept_resume (hs : Undisturbed (db, t)) (h : t.resume = some t') : Kept (db, t') := by
  have hplace : AtPlace db t t.pc := hs.place
  have hundisturbed := undisturbed_resume hs h
  unfold Turn.resume at h
  cases hpc : t.pc with
  | yieldStart =>
    simp only [hpc, Option.some.injEq] at h
    subst h
    refine .inl ⟨?_, hundisturbed⟩
    by_cases hsome : t.turn.sourceIds.isSome = true <;> simp [hsome, Pc.isEnded]
  | yieldCitations =>
    simp only [hpc, Option.some.injEq] at h
    subst h
    exact .inl ⟨rfl, hundisturbed⟩
  | yieldDelta f =>
    simp only [hpc, Option.some.injEq] at h
    subst h
    exact .inl ⟨rfl, hundisturbed⟩
  | yieldStreamError f =>
    simp only [hpc, Option.some.injEq] at h
    rw [hpc] at hplace
    subst h
    refine .inr ⟨rfl, fun htext => covered_returned (t := t) hs ?_⟩
    rw [hplace.1]
    exact hplace.2 (hplace.1 ▸ htext)
  | yieldLast =>
    simp only [hpc, Option.some.injEq] at h
    rw [hpc] at hplace
    subst h
    exact .inr ⟨rfl, fun htext => covered_returned (t := t) hs (hplace htext)⟩
  | _ => simp [hpc] at h

theorem kept_resumed (hs : Undisturbed (db, t)) (hrunning : t.pc.isEnded = false) :
    Kept (db, resumed t) := by
  unfold resumed
  split
  · cases hresume : t.resume with
    | none => exact .inl ⟨hrunning, hs⟩
    | some u => exact kept_resume hs hresume
  · exact .inl ⟨hrunning, hs⟩

/-- The cancellation reaches the generator inside the stream's `try` block, or before it. -/
theorem kept_cancel (hs : Undisturbed (db, t)) (hinside : t.pc.savesOutsideTry = false)
    (h : t.cancel cfg = some t') : Kept (db, t') := by
  have hends : t'.pc.isEnded = true ∧ t'.emitted = t.emitted := by
    obtain ⟨-, rfl⟩ := cancel_eq h
    exact ⟨rfl, rfl⟩
  refine .inr ⟨hends.1, fun htext => ?_⟩
  rw [hends.2] at htext ⊢
  refine covered_cancel hs htext (fun houtside => ?_) h
  cases hinside.symm.trans houtside

/-- A generator that is closed at its first `yield` has emitted no text. -/
theorem kept_close (hs : Kept (db, t)) (hstart : t.pc = .yieldStart ∨ t.pc.isEnded = true)
    (h : t.close = some t') : Kept (db, t') := by
  rcases hstart with hpc | hended
  · rcases hs with ⟨-, hs⟩ | ⟨hended, -⟩
    · have hplace : AtPlace db t t.pc := hs.place
      rw [hpc] at hplace
      have hclosed : t' = { t with pc := .ended .generatorExit } := by
        simp only [Turn.close, hpc, Pc.isYield, Pc.inTry, if_true, Option.some.injEq] at h
        exact h.symm
      subst hclosed
      exact .inr ⟨rfl, fun htext => absurd hplace.1 htext⟩
    · rw [hpc] at hended
      cases hended
  · have hyield : t.pc.isYield = false := by
      cases hcase : t.pc <;> simp_all [Pc.isYield, Pc.isEnded]
    simp [Turn.close, hyield] at h

/-- The background tasks and the database store what is covered. -/
theorem kept_outside (hs : Kept (db, t)) (hc : isOutside c = true)
    (hordinary : c.isOrdinary = true) (h : t.step cfg db c = some (db', t')) : Kept (db', t') := by
  obtain ⟨hpc, hemitted⟩ := outside_same hc h
  rcases hs with ⟨-, hs⟩ | ⟨hended, hcovered⟩
  · -- an undisturbed turn has left nothing to them
    have hbackground : t.background = [] := hs.background
    have hunsettled : t.unsettled = [] := hs.unsettled
    cases c with
    | background k => simp [Turn.step, hbackground] at h
    | settle k commits => simp [Turn.step, hunsettled] at h
    | backgroundFail k lost => cases hordinary
    | _ => cases hc
  · refine .inr ⟨?_, fun htext => ?_⟩
    · rw [hpc]
      exact hended
    · rw [hemitted] at htext ⊢
      exact covered_step htext hordinary (hcovered htext) h

/-! ## 2. One step of the response -/

/-- The database is available, and the provider keeps its contract. -/
def Label.isOrdinary : Label → Bool
  | .produce c => c.isOrdinary && !raises c
  | .outside c => c.isOrdinary
  | _ => true

/-- The cancellation does not reach a saving behind the stream. -/
def CancelsInside (s : Db × Response) (l : Label) : Prop :=
  l = .deliver → s.2.turn.pc.savesOutsideTry = false

instance (s : Db × Response) (l : Label) : Decidable (CancelsInside s l) :=
  inferInstanceAs (Decidable (_ → _))

theorem kept_pump (hs : Kept (db, r.turn)) (hpc : isSuspended r.turn.pc = true)
    (hc : isAwaited c = true) (hordinary : c.isOrdinary = true) (hraises : raises c = false)
    (h : r.turn.step cfg db c = some (db', t)) : Kept (db', (r.pump t).turn) := by
  rcases hs with ⟨-, hs⟩ | ⟨hended, -⟩
  · exact kept_resumed (undisturbed_step (s := (db, r.turn)) hordinary hs h)
      (awaits_or_yields hpc hc hraises h)
  · cases hended.symm.trans (not_ended_of_suspended hpc)

theorem kept_step (hs : Kept (db, r.turn)) (hok : r.Ok) (hl : l.isOrdinary = true)
    (hinside : CancelsInside (db, r) l) (h : step cfg (db, r) l = some (db', r')) :
    Kept (db', r'.turn) := by
  have hsame : ∀ {o : Option Response}, (∀ r', o = some r' → r'.turn = r.turn) →
      (o.map fun r => (db, r)) = some (db', r') → Kept (db', r'.turn) := by
    intro o hturn h
    obtain ⟨r₁, hr₁, heq⟩ := Option.map_eq_some_iff.mp h
    obtain ⟨rfl, rfl⟩ := Prod.mk.inj heq
    rw [hturn r₁ hr₁]
    exact hs
  cases l with
  | next => exact hsame (fun _ => next_turn) h
  | take => exact hsame (fun _ => take_turn) h
  | timeout => exact hsame (fun _ => timeout_turn) h
  | close => exact hsame (fun _ => close_turn) h
  | cancel => exact hsame (fun _ => cancel_turn) h
  | join => exact hsame (fun _ => join_turn) h
  | begin =>
    obtain ⟨r₁, hr₁, heq⟩ := Option.map_eq_some_iff.mp h
    obtain ⟨rfl, rfl⟩ := Prod.mk.inj heq
    unfold Response.begin at hr₁
    split at hr₁
    · rename_i hnow
      obtain ⟨t, ht, rfl⟩ := Option.map_eq_some_iff.mp hr₁
      obtain ⟨hflows, -⟩ := hok.flows (.inl hnow.1) hnow.2
      have hpc : r.turn.pc = .yieldStart := by
        rcases hflows.runs.1 with ⟨-, hpc⟩ | ⟨hrunning, -⟩
        · exact hpc
        · cases hnow.1.symm.trans hrunning
      rcases hs with ⟨-, hs⟩ | ⟨hended, -⟩
      · have hundisturbed := undisturbed_resume hs ht
        refine kept_resumed hundisturbed ?_
        simp only [Turn.resume, hpc, Option.some.injEq] at ht
        subst ht
        by_cases hsome : r.turn.turn.sourceIds.isSome = true <;> simp [hsome, Pc.isEnded]
      · rw [hpc] at hended
        cases hended
    · cases hr₁
  | produce c =>
    simp only [step] at h
    split at h
    · rename_i hnow
      obtain ⟨⟨db₁, t⟩, ht, heq⟩ := Option.map_eq_some_iff.mp h
      obtain ⟨rfl, rfl⟩ := Prod.mk.inj heq
      obtain ⟨hflows, -⟩ := hok.flows (.inr hnow.1) hnow.2.1
      have hpc : isSuspended r.turn.pc = true := by
        rcases hflows.runs.1 with ⟨hcreated, -⟩ | ⟨-, hpc⟩
        · cases hnow.1.symm.trans hcreated
        · exact hpc
      simp only [Label.isOrdinary, Bool.and_eq_true, Bool.not_eq_true'] at hl
      exact kept_pump hs hpc hnow.2.2 hl.1 hl.2 ht
    · cases h
  | deliver =>
    obtain ⟨r₁, hr₁, heq⟩ := Option.map_eq_some_iff.mp h
    obtain ⟨rfl, rfl⟩ := Prod.mk.inj heq
    unfold Response.deliver at hr₁
    split at hr₁
    · split at hr₁
      · cases hr₁
        exact hs
      · obtain ⟨t, ht, rfl⟩ := Option.map_eq_some_iff.mp hr₁
        rcases hs with ⟨-, hs⟩ | ⟨hended, -⟩
        · exact kept_cancel hs (hinside rfl) ht
        · have hrunning := (cancel_eq ht).1
          cases hended.symm.trans hrunning
      · cases hr₁
    · cases hr₁
  | finalize =>
    obtain ⟨r₁, hr₁, heq⟩ := Option.map_eq_some_iff.mp h
    obtain ⟨rfl, rfl⟩ := Prod.mk.inj heq
    unfold Response.finalize at hr₁
    split at hr₁
    · rename_i hended
      obtain ⟨t, ht, rfl⟩ := Option.map_eq_some_iff.mp hr₁
      exact kept_close hs (hok.startOrEnded hended) ht
    · cases hr₁
  | outside c =>
    simp only [step] at h
    split at h
    · rename_i hc
      obtain ⟨⟨db₁, t⟩, ht, heq⟩ := Option.map_eq_some_iff.mp h
      obtain ⟨rfl, rfl⟩ := Prod.mk.inj heq
      exact kept_outside hs hc hl ht
    · cases h

/-! ## 3. The result -/

/-- A state of the response: its invariant, and the text. -/
structure Safe (s : Db × Response) : Prop where
  ok : s.2.Ok
  kept : Kept (s.1, s.2.turn)

theorem deltas_prefix {a b : List Event} (h : a <+: b) :
    (deltasOf a).flatten <+: (deltasOf b).flatten := by
  obtain ⟨c, rfl⟩ := h
  unfold deltasOf
  rw [List.filterMap_append, List.flatten_append]
  exact List.prefix_append _ _

/-- **Nothing that was shown is lost.**  If no cancellation reaches the saving behind the stream,
then once the turn has come to rest the conversation has an assistant message that begins with all
text that the response has yielded. -/
theorem shown_saved {cfg : Config} {db₀ db : Db} {ctx : AuthContext} {conversationId : Id}
    {prepared : Prepared} {ls : List Label} {r : Response}
    (hfresh : Fresh db₀ prepared.assistantMessageId) (hls : ∀ l ∈ ls, l.isOrdinary = true)
    (hinside : Guarded (step cfg) CancelsInside (db₀, .start ctx conversationId prepared) ls)
    (h : run (step cfg) (db₀, .start ctx conversationId prepared) ls = some (db, r))
    (hquiescent : r.turn.Quiescent) (htext : deltasOf r.events ≠ []) :
    Answered db prepared.assistantMessageId conversationId (deltasOf r.events) := by
  have hordinary : Guarded (step cfg) (fun _ l => l.isOrdinary = true)
      (db₀, .start ctx conversationId prepared) ls := guarded_of_forall _ hls
  have hstart : Safe (db₀, .start ctx conversationId prepared) :=
    ⟨ok_start ctx conversationId prepared,
      .inl ⟨rfl, undisturbed_start ctx conversationId prepared hfresh⟩⟩
  have hstep : ∀ (s : Db × Response) l s', Safe s → l.isOrdinary = true ∧ CancelsInside s l →
      step cfg s l = some s' → Safe s' := by
    rintro ⟨db, r⟩ l s' hs hl hstep
    exact ⟨ok_step hs.ok hstep, kept_step hs.kept hs.ok hl.1 hl.2 hstep⟩
  have hsafe : Safe (db, r) := run_invariant hstep hstart (hordinary.and hinside) h
  have hshown : (deltasOf r.events).flatten <+: (deltasOf r.turn.emitted).flatten :=
    deltas_prefix hsafe.ok.order
  have hemitted : deltasOf r.turn.emitted ≠ [] := by
    obtain ⟨rest, hrest⟩ := hsafe.ok.order
    rw [← hrest, deltasOf, List.filterMap_append]
    exact fun hnil => htext (List.append_eq_nil_iff.mp hnil).1
  obtain ⟨cs, hcs⟩ := turn_run h
  obtain ⟨hid, hconversation⟩ := run_same hcs
  rcases hsafe.kept with ⟨hrunning, -⟩ | ⟨-, hcovered⟩
  · cases hquiescent.pc.symm.trans hrunning
  · have hanswered := (hcovered hemitted).answered hquiescent
    rw [show r.turn.id = prepared.assistantMessageId from hid,
      show r.turn.conversationId = conversationId from hconversation] at hanswered
    obtain ⟨m, hm, hmid, hmconversation, hrole, hcontent⟩ := hanswered
    exact ⟨m, hm, hmid, hmconversation, hrole, hshown.trans hcontent⟩

/-- One delta is shown, and the client goes away while the next one is awaited. -/
def leftRun : List Label :=
  [.next, .begin, .produce (.provider (.event (.textDelta ['a'])) 0), .next, .take, .next, .cancel,
    .deliver, .join, .outside (.background 0)]

theorem shown_saved_left :
    ∃ s, run (step sampleConfig) (.empty, .start sampleContext 0 samplePrepared) leftRun = some s ∧
      Answered s.1 1 0 [['a']] := by
  have hend : (run (step sampleConfig) (.empty, .start sampleContext 0 samplePrepared) leftRun).map
      (fun s => (deltasOf s.2.events, s.2.turn.pc.isEnded, s.2.turn.background,
        s.2.turn.unsettled)) = some ([['a']], true, [], []) := by decide
  have hinside : Guarded (step sampleConfig) CancelsInside
      (.empty, .start sampleContext 0 samplePrepared) leftRun := by decide
  obtain ⟨s, hs, heq⟩ := Option.map_eq_some_iff.mp hend
  simp only [Prod.mk.injEq] at heq
  obtain ⟨htext, hpc, hbackground, hunsettled⟩ := heq
  have hsaved := shown_saved ⟨rfl, rfl, rfl⟩ (by decide) hinside hs ⟨hpc, hbackground, hunsettled⟩
    (by rw [htext]; exact List.cons_ne_nil _ _)
  rw [htext] at hsaved
  exact ⟨s, hs, hsaved⟩

end AtlasKnowledge.Chat.Source
