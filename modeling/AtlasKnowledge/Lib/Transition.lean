/-
# Runs of a labelled step function

A system is a partial step function `step : σ → ℓ → Option σ`: the label carries everything
the environment decides, and `none` says that the label is not enabled.  A run is the list of
its labels, so that a run can be evaluated, cut and prolonged.

* `run`: the state after a list of labels;
* `Guarded`: every step of a run meets a condition on the state before it and its label;
* `run_invariant`: the induction that every safety property of a guarded run goes through;
* `guarded_of_reached`: the condition of a run from its steps.
-/
import Mathlib.Data.Option.Basic

namespace Transition

variable {σ ℓ : Type*}

/-! ## 1. Runs -/

/-- The state reached from `s` through the labels, if every one of them is enabled. -/
def run (step : σ → ℓ → Option σ) : σ → List ℓ → Option σ
  | s, [] => some s
  | s, l :: ls => (step s l).bind fun s' => run step s' ls

variable {step : σ → ℓ → Option σ}

@[simp] theorem run_nil (s : σ) : run step s [] = some s := rfl

@[simp] theorem run_cons (s : σ) (l : ℓ) (ls : List ℓ) :
    run step s (l :: ls) = (step s l).bind fun s' => run step s' ls := rfl

/-- A run of a concatenation is a run of the first part followed by one of the second. -/
theorem run_append (s : σ) (ls ls' : List ℓ) :
    run step s (ls ++ ls') = (run step s ls).bind fun s' => run step s' ls' := by
  induction ls generalizing s with
  | nil => rfl
  | cons l ls ih =>
    simp only [List.cons_append, run_cons, Option.bind_assoc]
    congr 1
    funext s'
    exact ih s'

/-- Cutting a run at the end of its first part. -/
theorem run_append_eq_some {s s'' : σ} {ls ls' : List ℓ} :
    run step s (ls ++ ls') = some s'' ↔
      ∃ s', run step s ls = some s' ∧ run step s' ls' = some s'' := by
  rw [run_append, Option.bind_eq_some_iff]

/-! ## 2. Guarded runs -/

/-- Every step of the run meets `ok` on the state before it. -/
def Guarded (step : σ → ℓ → Option σ) (ok : σ → ℓ → Prop) : σ → List ℓ → Prop
  | _, [] => True
  | s, l :: ls => ok s l ∧ ∀ s', step s l = some s' → Guarded step ok s' ls

variable {ok : σ → ℓ → Prop}

/-- A condition that can be checked at one step can be checked along a run. -/
instance Guarded.decidable [∀ s l, Decidable (ok s l)] :
    ∀ (ls : List ℓ) (s : σ), Decidable (Guarded step ok s ls)
  | [], _ => .isTrue trivial
  | l :: ls, s =>
    match h : step s l with
    | none => decidable_of_iff (ok s l) (by simp [Guarded, h])
    | some s' =>
      have := Guarded.decidable ls s'
      decidable_of_iff (ok s l ∧ Guarded step ok s' ls) (by simp [Guarded, h])

/-- The condition on a concatenation, cut at the end of its first part. -/
theorem guarded_append {s : σ} {ls ls' : List ℓ} :
    Guarded step ok s (ls ++ ls') ↔
      Guarded step ok s ls ∧ ∀ s', run step s ls = some s' → Guarded step ok s' ls' := by
  induction ls generalizing s with
  | nil => simp [Guarded]
  | cons l ls ih =>
    simp only [List.cons_append, Guarded, run_cons, Option.bind_eq_some_iff, ih]
    constructor
    · rintro ⟨hl, hrest⟩
      refine ⟨⟨hl, fun s' hs' => (hrest s' hs').1⟩, ?_⟩
      rintro s'' ⟨s', hs', hrun⟩
      exact (hrest s' hs').2 s'' hrun
    · rintro ⟨⟨hl, hrest⟩, hlast⟩
      exact ⟨hl, fun s' hs' => ⟨hrest s' hs', fun s'' hrun => hlast s'' ⟨s', hs', hrun⟩⟩⟩

/-- Two conditions on a run are one. -/
theorem Guarded.and {ok' : σ → ℓ → Prop} :
    ∀ {ls : List ℓ} {s : σ}, Guarded step ok s ls → Guarded step ok' s ls →
      Guarded step (fun s l => ok s l ∧ ok' s l) s ls
  | [], _, _, _ => trivial
  | _ :: _, _, h, h' => ⟨⟨h.1, h'.1⟩, fun s' hs' => (h.2 s' hs').and (h'.2 s' hs')⟩

/-- A weaker condition. -/
theorem Guarded.imp {ok' : σ → ℓ → Prop} (himp : ∀ s l, ok s l → ok' s l) :
    ∀ {ls : List ℓ} {s : σ}, Guarded step ok s ls → Guarded step ok' s ls
  | [], _, _ => trivial
  | l :: _, s, h => ⟨himp s l h.1, fun s' hs' => (h.2 s' hs').imp himp⟩

/-- The step after a guarded run meets the condition too. -/
theorem Guarded.last {s s' : σ} {ls : List ℓ} {l : ℓ} (h : Guarded step ok s (ls ++ [l]))
    (hrun : run step s ls = some s') : ok s' l :=
  ((guarded_append.mp h).2 s' hrun).1

/-! ## 3. Invariants -/

/-- **The invariant rule.**  What every step that meets the condition keeps, every guarded
run keeps. -/
theorem run_invariant {Inv : σ → Prop}
    (hstep : ∀ s l s', Inv s → ok s l → step s l = some s' → Inv s') :
    ∀ {ls : List ℓ} {s s' : σ}, Inv s → Guarded step ok s ls → run step s ls = some s' → Inv s'
  | [], s, s', hs, _, hrun => by
    obtain rfl : s = s' := by simpa using hrun
    exact hs
  | l :: ls, s, s', hs, hg, hrun => by
    obtain ⟨s₁, hl, hrest⟩ := Option.bind_eq_some_iff.mp hrun
    exact run_invariant hstep (hstep s l s₁ hs hg.1 hl) (hg.2 s₁ hl) hrest

/-- A run without a condition is guarded by the trivial one. -/
theorem guarded_true : ∀ (ls : List ℓ) (s : σ), Guarded step (fun _ _ => True) s ls
  | [], _ => trivial
  | _ :: ls, _ => ⟨trivial, fun s' _ => guarded_true ls s'⟩

/-- A condition on the labels alone holds along a run if it holds of each. -/
theorem guarded_of_forall {P : ℓ → Prop} :
    ∀ {ls : List ℓ} (s : σ), (∀ l ∈ ls, P l) → Guarded step (fun _ l => P l) s ls
  | [], _, _ => trivial
  | l :: _, _, h => ⟨h l List.mem_cons_self, fun s' _ =>
      guarded_of_forall s' fun l' hl' => h l' (List.mem_cons_of_mem _ hl')⟩

/-- **The converse rule.**  A run meets the condition if every step does that has been reached
through steps that do. -/
theorem guarded_of_reached {s last : σ} {ls : List ℓ} (hrun : run step s ls = some last)
    (hok : ∀ front l back s₁ s₂, ls = front ++ l :: back → Guarded step ok s front →
      run step s front = some s₁ → step s₁ l = some s₂ → ok s₁ l) : Guarded step ok s ls := by
  induction ls generalizing s with
  | nil => trivial
  | cons l ls ih =>
    obtain ⟨s₁, hl, hrest⟩ := Option.bind_eq_some_iff.mp hrun
    have hfirst : ok s l := hok [] l ls s s₁ rfl trivial rfl hl
    refine ⟨hfirst, fun s₂ hs₂ => ?_⟩
    obtain rfl := Option.some.inj (hl.symm.trans hs₂)
    refine ih hrest fun front l' back s₂ s₃ hls hfront hrun hl' => ?_
    refine hok (l :: front) l' back s₂ s₃ (congrArg (l :: ·) hls) ⟨hfirst, fun s' hs' => ?_⟩
      (by simp [hl, hrun]) hl'
    obtain rfl := Option.some.inj (hl.symm.trans hs')
    exact hfront

/-- The invariant rule for runs without a condition. -/
theorem run_invariant_of_step {Inv : σ → Prop}
    (hstep : ∀ s l s', Inv s → step s l = some s' → Inv s') {ls : List ℓ} {s s' : σ}
    (hs : Inv s) (hrun : run step s ls = some s') : Inv s' :=
  run_invariant (fun s l s' hi _ hl => hstep s l s' hi hl) hs (guarded_true ls s) hrun

/-! ## 4. Machines without a choice -/

/-- A machine that no longer asks the environment, driven for `n` steps or until it halts. -/
def drive (next : σ → Option σ) : Nat → σ → σ
  | 0, s => s
  | n + 1, s =>
    match next s with
    | some s' => drive next n s'
    | none => s

theorem drive_of_some {next : σ → Option σ} {s s' : σ} (h : next s = some s') (n : Nat) :
    drive next (n + 1) s = drive next n s' := by simp only [drive, h]

/-- A machine that has halted stays where it is. -/
theorem drive_of_none {next : σ → Option σ} {s : σ} (h : next s = none) (n : Nat) :
    drive next n s = s := by
  cases n with
  | zero => rfl
  | succ n => simp only [drive, h]

/-- **The halting rule.**  With an invariant that every step keeps and a measure that every step
decreases, as much fuel as the measure says brings the machine to a halt inside the
invariant. -/
theorem drive_halts {next : σ → Option σ} {Inv : σ → Prop} (measure : σ → Nat)
    (hstep : ∀ s s', Inv s → next s = some s' → Inv s' ∧ measure s' < measure s) :
    ∀ {n : Nat} {s : σ}, Inv s → measure s ≤ n →
      Inv (drive next n s) ∧ next (drive next n s) = none
  | 0, s, hs, hn => by
    refine ⟨hs, ?_⟩
    cases hnext : next s with
    | none => exact hnext
    | some s' =>
      have hlt := (hstep s s' hs hnext).2
      omega
  | n + 1, s, hs, hn => by
    cases hnext : next s with
    | none =>
      simp only [drive, hnext]
      exact ⟨hs, trivial⟩
    | some s' =>
      obtain ⟨hs', hlt⟩ := hstep s s' hs hnext
      simp only [drive, hnext]
      exact drive_halts measure hstep hs' (by omega)

end Transition
