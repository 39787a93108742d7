/-
# Operations that one observer may see

An operation changes a state and returns a value or raises an error.  An observer is given by the
states that look the same to it, and by what a step may do to everything else.  `Secure P m Q`
says of two runs from states that look the same and satisfy `P`: they return the same, leave
states that look the same and satisfy `Q`, and leave everything else alone.

The rules are those of the constructs an operation is built with; `runAll_of_step` is the one for
a sequence of operations, each of which may fail.
-/
import Mathlib.Data.List.Basic

namespace Observer

variable {σ ε α β : Type}

/-- An operation on states `σ` with errors `ε`. -/
abbrev Op (σ ε α : Type) : Type := ExceptT ε (StateM σ) α

/-- One run: the result and the state. -/
def run (m : Op σ ε α) (s : σ) : Except ε α × σ := m s

/-- The value of a function of the state. -/
def read (f : σ → α) : Op σ ε α := fun s => (.ok (f s), s)

/-- A change of the state. -/
def change (f : σ → σ) : Op σ ε Unit := fun s => (.ok (), f s)

@[simp] theorem run_pure (a : α) (s : σ) : run (pure a : Op σ ε α) s = (.ok a, s) := rfl

@[simp] theorem run_throw (e : ε) (s : σ) : run (throw e : Op σ ε α) s = (.error e, s) := rfl

@[simp] theorem run_read (f : σ → α) (s : σ) : run (read f : Op σ ε α) s = (.ok (f s), s) := rfl

@[simp] theorem run_change (f : σ → σ) (s : σ) : run (change f : Op σ ε Unit) s = (.ok (), f s) :=
  rfl

theorem run_bind (m : Op σ ε α) (f : α → Op σ ε β) (s : σ) :
    run (m >>= f) s = match run m s with
      | (.ok a, t) => run (f a) t
      | (.error e, t) => (.error e, t) := by
  have hbind : run (m >>= f) s = ExceptT.bindCont f (m s).1 (m s).2 := rfl
  rw [hbind, run]
  rcases m s with ⟨_ | _, _⟩ <;> rfl

end Observer

/-- What looks the same, and what a step may do to the rest. -/
structure Observer (σ : Type) where
  Same : σ → σ → Prop
  Frame : σ → σ → Prop
  frame_refl : ∀ s, Frame s s
  frame_trans : ∀ {s t u}, Frame s t → Frame t u → Frame s u

namespace Observer

variable {σ ε α β : Type} (O : Observer σ)

/-! ## 1. Secure operations -/

/-- Two runs of a secure operation, side by side. -/
structure Runs (r₁ r₂ : Except ε α × σ) (s₁ s₂ : σ) (Q : α → σ → Prop) : Prop where
  result : r₁.1 = r₂.1
  same : O.Same r₁.2 r₂.2
  frame₁ : O.Frame s₁ r₁.2
  frame₂ : O.Frame s₂ r₂.2
  post₁ : ∀ a, r₁.1 = .ok a → Q a r₁.2
  post₂ : ∀ a, r₂.1 = .ok a → Q a r₂.2

def Secure (P : σ → Prop) (m : Op σ ε α) (Q : α → σ → Prop) : Prop :=
  ∀ s₁ s₂, O.Same s₁ s₂ → P s₁ → P s₂ → O.Runs (run m s₁) (run m s₂) s₁ s₂ Q

variable {O} {P P' : σ → Prop} {Q Q' : α → σ → Prop} {R : β → σ → Prop}

theorem secure_pure {a : α} (h : ∀ s, P s → Q a s) : O.Secure P (pure a : Op σ ε α) Q := by
  intro s₁ s₂ hsame h₁ h₂
  refine ⟨rfl, hsame, O.frame_refl s₁, O.frame_refl s₂, ?_, ?_⟩
  · rintro b ⟨⟩
    exact h s₁ h₁
  · rintro b ⟨⟩
    exact h s₂ h₂

theorem secure_throw (e : ε) : O.Secure P (throw e : Op σ ε α) Q := by
  intro s₁ s₂ hsame _ _
  exact ⟨rfl, hsame, O.frame_refl s₁, O.frame_refl s₂, nofun, nofun⟩

/-- **Sequencing.**  The second operation starts where the first one ends, or not at all. -/
theorem secure_bind {m : Op σ ε α} {f : α → Op σ ε β} (hm : O.Secure P m Q)
    (hf : ∀ a, O.Secure (Q a) (f a) R) : O.Secure P (m >>= f) R := by
  intro s₁ s₂ hsame h₁ h₂
  have hfirst := hm s₁ s₂ hsame h₁ h₂
  rw [run_bind, run_bind]
  generalize run m s₁ = r₁ at hfirst
  generalize run m s₂ = r₂ at hfirst
  obtain ⟨a₁, t₁⟩ := r₁
  obtain ⟨a₂, t₂⟩ := r₂
  obtain rfl : a₁ = a₂ := hfirst.result
  cases a₁ with
  | error e => exact ⟨rfl, hfirst.same, hfirst.frame₁, hfirst.frame₂, nofun, nofun⟩
  | ok a =>
    have hsecond := hf a t₁ t₂ hfirst.same (hfirst.post₁ a rfl) (hfirst.post₂ a rfl)
    exact ⟨hsecond.result, hsecond.same, O.frame_trans hfirst.frame₁ hsecond.frame₁,
      O.frame_trans hfirst.frame₂ hsecond.frame₂, hsecond.post₁, hsecond.post₂⟩

theorem secure_mono {m : Op σ ε α} (h : O.Secure P m Q) (hpre : ∀ s, P' s → P s)
    (hpost : ∀ a s, Q a s → Q' a s) : O.Secure P' m Q' := by
  intro s₁ s₂ hsame h₁ h₂
  have hruns := h s₁ s₂ hsame (hpre s₁ h₁) (hpre s₂ h₂)
  exact ⟨hruns.result, hruns.same, hruns.frame₁, hruns.frame₂,
    fun a ha => hpost a _ (hruns.post₁ a ha), fun a ha => hpost a _ (hruns.post₂ a ha)⟩

/-- A read is secure if it only reads what the observer sees. -/
theorem secure_read {f : σ → α}
    (h : ∀ s₁ s₂, O.Same s₁ s₂ → P s₁ → P s₂ → f s₁ = f s₂) :
    O.Secure P (read f : Op σ ε α) fun a s => P s ∧ a = f s := by
  intro s₁ s₂ hsame h₁ h₂
  refine ⟨congrArg Except.ok (h s₁ s₂ hsame h₁ h₂), hsame, O.frame_refl s₁, O.frame_refl s₂,
    ?_, ?_⟩
  · rintro a ⟨⟩
    exact ⟨h₁, rfl⟩
  · rintro a ⟨⟩
    exact ⟨h₂, rfl⟩

theorem secure_change {f : σ → σ} {Q : σ → Prop}
    (hsame : ∀ s₁ s₂, O.Same s₁ s₂ → P s₁ → P s₂ → O.Same (f s₁) (f s₂))
    (hframe : ∀ s, O.Same s s → P s → O.Frame s (f s)) (hpost : ∀ s, P s → Q (f s))
    (hrefl : ∀ s₁ s₂, O.Same s₁ s₂ → O.Same s₁ s₁ ∧ O.Same s₂ s₂) :
    O.Secure P (change f : Op σ ε Unit) fun _ s => Q s := by
  intro s₁ s₂ hs h₁ h₂
  obtain ⟨hrefl₁, hrefl₂⟩ := hrefl s₁ s₂ hs
  exact ⟨rfl, hsame s₁ s₂ hs h₁ h₂, hframe s₁ hrefl₁ h₁, hframe s₂ hrefl₂ h₂,
    fun _ _ => hpost s₁ h₁, fun _ _ => hpost s₂ h₂⟩

theorem secure_ite {c : Prop} [Decidable c] {m n : Op σ ε α} (hm : c → O.Secure P m Q)
    (hn : ¬ c → O.Secure P n Q) : O.Secure P (if c then m else n) Q := by
  by_cases h : c
  · rw [if_pos h]
    exact hm h
  · rw [if_neg h]
    exact hn h

/-! ## 2. Sequences -/

/-- The results of a sequence of operations; an error ends its operation, not the sequence. -/
def runAll : List (Op σ ε α) → σ → List (Except ε α) × σ
  | [], s => ([], s)
  | m :: ms, s =>
    let r := run m s
    let rest := runAll ms r.2
    (r.1 :: rest.1, rest.2)

/-- **Sequences.**  What looks the same may depend on the calls that are still to come.  If each
call, run from states that look the same, returns the same, leaves states that look the same to
the calls after it and leaves everything else alone, then so do all of them together. -/
theorem runAll_of_step {κ : Type} {op : κ → Op σ ε α} {Same : List κ → σ → σ → Prop}
    {Frame : σ → σ → Prop} (hrefl : ∀ s, Frame s s)
    (htrans : ∀ {s t u}, Frame s t → Frame t u → Frame s u)
    (hstep : ∀ c rest s₁ s₂, Same (c :: rest) s₁ s₂ →
      (run (op c) s₁).1 = (run (op c) s₂).1 ∧ Same rest (run (op c) s₁).2 (run (op c) s₂).2 ∧
        Frame s₁ (run (op c) s₁).2 ∧ Frame s₂ (run (op c) s₂).2)
    {calls : List κ} {s₁ s₂ : σ} (hsame : Same calls s₁ s₂) :
    (runAll (calls.map op) s₁).1 = (runAll (calls.map op) s₂).1 ∧
      Same [] (runAll (calls.map op) s₁).2 (runAll (calls.map op) s₂).2 ∧
      Frame s₁ (runAll (calls.map op) s₁).2 ∧ Frame s₂ (runAll (calls.map op) s₂).2 := by
  induction calls generalizing s₁ s₂ with
  | nil => exact ⟨rfl, hsame, hrefl s₁, hrefl s₂⟩
  | cons c calls ih =>
    obtain ⟨hresult, hnext, hframe₁, hframe₂⟩ := hstep c calls s₁ s₂ hsame
    obtain ⟨hresults, hlast, hrest₁, hrest₂⟩ := ih hnext
    refine ⟨?_, hlast, htrans hframe₁ hrest₁, htrans hframe₂ hrest₂⟩
    simp only [List.map_cons, runAll]
    rw [hresult, hresults]

end Observer
