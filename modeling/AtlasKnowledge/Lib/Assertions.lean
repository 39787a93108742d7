/-
# Assertions about the parties of an interleaving

Each party of a `Par` stands at a place of its program, and what it has found out there must
survive whatever the others do in the meantime.  `Par.Holds I P` says that the shared state meets
`I` and that every party's own assertion `P` holds of it.

* `Holds.set_of_ne`: a move keeps it, if the party that moves establishes its next assertion and
  the move is stable for the assertions of the others;
* `Holds.spawn`, `Holds.env`: a new party, and a step of the environment;
* `Par.Distinct`: what only one party may hold tells the others from the one that moves.
-/
import AtlasKnowledge.Lib.Interleave

namespace Interleave

variable {σ π χ : Type*}

/-- The shared state meets `I`, and every party's assertion holds of it. -/
structure Par.Holds (I : σ → Prop) (P : σ → π → Prop) (s : Par σ π) : Prop where
  shared : I s.shared
  parties : ∀ p ∈ s.parties, P s.shared p

variable {I : σ → Prop} {P : σ → π → Prop} {s s' : Par σ π}

/-- **The rule for a move.**  The shared state keeps `I`, the party that moves stands where its
next assertion holds, and what the others rely on is still true. -/
theorem Par.Holds.set_of_ne (h : s.Holds I P) {w : σ} {q : π} {i : Nat} (hshared : I w)
    (hself : P w q)
    (hstable : ∀ j r, j ≠ i → s.parties[j]? = some r → P s.shared r → P w r) :
    (⟨w, s.parties.set i q⟩ : Par σ π).Holds I P where
  shared := hshared
  parties := by
    intro r hr
    obtain ⟨j, hj⟩ := List.mem_iff_getElem?.mp hr
    rcases set_cases hj with ⟨-, rfl⟩ | ⟨hne, hold⟩
    · exact hself
    · exact hstable j r hne hold (h.parties r (List.mem_of_getElem? hold))

/-- The rule for a move that is stable for the assertion of whatever party. -/
theorem Par.Holds.set (h : s.Holds I P) {w : σ} {q : π} (i : Nat) (hshared : I w)
    (hself : P w q) (hstable : ∀ r, P s.shared r → P w r) :
    (⟨w, s.parties.set i q⟩ : Par σ π).Holds I P :=
  h.set_of_ne hshared hself fun _ r _ _ => hstable r

/-- The rule for a new party. -/
theorem Par.Holds.spawn (h : s.Holds I P) {p : π} (hp : P s.shared p) :
    (s.spawn p).Holds I P where
  shared := h.shared
  parties := by
    intro r hr
    rcases List.mem_append.mp hr with hold | hnew
    · exact h.parties r hold
    · obtain rfl := List.mem_singleton.mp hnew
      exact hp

/-- The rule for a step of the environment on the shared state. -/
theorem Par.Holds.env (h : s.Holds I P) {w : σ} (hshared : I w)
    (hstable : ∀ r, P s.shared r → P w r) : ({ s with shared := w } : Par σ π).Holds I P where
  shared := hshared
  parties := fun r hr => hstable r (h.parties r hr)

/-! ## Tickets -/

/-- No two parties hold the same ticket. -/
def Par.Distinct {κ : Type*} (ticket : π → Option κ) (s : Par σ π) : Prop :=
  ∀ (i j : Nat) p q k, s.parties[i]? = some p → s.parties[j]? = some q → ticket p = some k →
    ticket q = some k → i = j

section Distinct

variable {κ : Type*} {ticket : π → Option κ}

/-- A party that moves keeps its ticket. -/
theorem Par.Distinct.set (h : s.Distinct ticket) {w : σ} {p q : π} {i : Nat}
    (hp : s.parties[i]? = some p) (hq : ticket q = ticket p) :
    (⟨w, s.parties.set i q⟩ : Par σ π).Distinct ticket := by
  have hback : ∀ (j : Nat) r k, (s.parties.set i q)[j]? = some r → ticket r = some k →
      ∃ r', s.parties[j]? = some r' ∧ ticket r' = some k := by
    intro j r k hr hk
    rcases set_cases hr with ⟨rfl, rfl⟩ | ⟨-, hold⟩
    · exact ⟨p, hp, hq ▸ hk⟩
    · exact ⟨r, hold, hk⟩
  intro a b r r' k hr hr' hk hk'
  obtain ⟨x, hx, hxk⟩ := hback a r k hr hk
  obtain ⟨y, hy, hyk⟩ := hback b r' k hr' hk'
  exact h a b x y k hx hy hxk hyk

/-- A party that moves takes a ticket that none of the others holds, or none. -/
theorem Par.Distinct.take (h : s.Distinct ticket) {w : σ} {q : π} {i : Nat}
    (hq : ∀ j r, j ≠ i → s.parties[j]? = some r → ∀ k, ticket q = some k → ticket r ≠ some k) :
    (⟨w, s.parties.set i q⟩ : Par σ π).Distinct ticket := by
  intro a b r r' k hr hr' hk hk'
  rcases set_cases hr with ⟨rfl, rfl⟩ | ⟨hne, hold⟩ <;>
    rcases set_cases hr' with ⟨rfl, rfl⟩ | ⟨hne', hold'⟩
  · rfl
  · exact absurd hk' (hq b r' hne' hold' k hk)
  · exact absurd hk (hq a r hne hold k hk')
  · exact h a b r r' k hold hold' hk hk'

/-- A new party comes with a ticket that nobody holds, or with none. -/
theorem Par.Distinct.spawn (h : s.Distinct ticket) {p : π}
    (hp : ∀ r ∈ s.parties, ∀ k, ticket p = some k → ticket r ≠ some k) :
    (s.spawn p).Distinct ticket := by
  intro a b r r' k hr hr' hk hk'
  rcases concat_cases hr with ⟨rfl, rfl⟩ | hold <;> rcases concat_cases hr' with ⟨rfl, rfl⟩ | hold'
  · rfl
  · exact absurd hk' (hp r' (List.mem_of_getElem? hold') k hk)
  · exact absurd hk (hp r (List.mem_of_getElem? hold) k hk')
  · exact h a b r r' k hold hold' hk hk'

/-- Another party holds another ticket. -/
theorem Par.Distinct.ne (h : s.Distinct ticket) {p r : π} {i j : Nat} (hne : j ≠ i)
    (hp : s.parties[i]? = some p) (hr : s.parties[j]? = some r) {k : κ} (hk : ticket r = some k) :
    some k ≠ ticket p :=
  fun hkp => hne (h j i r p k hr hp hk hkp.symm)

end Distinct

/-- No party, no assertion. -/
theorem Par.holds_nil {w : σ} (hshared : I w) : (⟨w, []⟩ : Par σ π).Holds I P :=
  ⟨hshared, by simp⟩

end Interleave
