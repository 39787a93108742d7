/-
# Parties that share a state and take turns

`Par σ π` is a shared state with a list of parties, each at its own place in its own program.
One party moves at a time: `act` runs the local step of the party at a position, and the
others keep their place.  Any interleaving of any number of parties is a list of positions.
-/
import Mathlib.Data.List.Basic

namespace Interleave

/-- A shared state and the parties that work on it. -/
structure Par (σ π : Type*) where
  shared : σ
  parties : List π

variable {σ π χ : Type*}

/-- The party at position `i` takes one step of its program with the choice `c`. -/
def Par.act (step : σ → π → χ → Option (σ × π)) (s : Par σ π) (i : Nat) (c : χ) :
    Option (Par σ π) :=
  s.parties[i]?.bind fun p => (step s.shared p c).map fun r => ⟨r.1, s.parties.set i r.2⟩

/-- A further party joins at the end of the list. -/
def Par.spawn (s : Par σ π) (p : π) : Par σ π := { s with parties := s.parties ++ [p] }

variable {step : σ → π → χ → Option (σ × π)}

/-- **What a move can do.**  One party takes a local step; its place is the only one that
changes. -/
theorem Par.act_eq_some {s s' : Par σ π} {i : Nat} {c : χ} :
    s.act step i c = some s' ↔
      ∃ p w q, s.parties[i]? = some p ∧ step s.shared p c = some (w, q) ∧
        s' = ⟨w, s.parties.set i q⟩ := by
  simp only [Par.act, Option.bind_eq_some_iff, Option.map_eq_some_iff]
  constructor
  · rintro ⟨p, hp, ⟨w, q⟩, hstep, rfl⟩
    exact ⟨p, w, q, hp, hstep, rfl⟩
  · rintro ⟨p, w, q, hp, hstep, rfl⟩
    exact ⟨p, hp, (w, q), hstep, rfl⟩

@[simp] theorem Par.spawn_shared (s : Par σ π) (p : π) : (s.spawn p).shared = s.shared := rfl

@[simp] theorem Par.spawn_parties (s : Par σ π) (p : π) :
    (s.spawn p).parties = s.parties ++ [p] := rfl

/-- The party that moved is now at its new place. -/
theorem set_self {ps : List π} {i : Nat} {p q : π} (h : ps[i]? = some p) :
    (ps.set i q)[i]? = some q := by
  obtain ⟨hi, -⟩ := List.getElem?_eq_some_iff.mp h
  rw [List.getElem?_set_self hi]

/-- The other parties are where they were. -/
theorem set_other {ps : List π} {i j : Nat} {q : π} (h : j ≠ i) :
    (ps.set i q)[j]? = ps[j]? := List.getElem?_set_ne (Ne.symm h)

/-- Every party after a move is the one that moved or one that did not. -/
theorem set_cases {ps : List π} {i j : Nat} {q r : π} (h : (ps.set i q)[j]? = some r) :
    (j = i ∧ r = q) ∨ (j ≠ i ∧ ps[j]? = some r) := by
  by_cases hij : j = i
  · subst hij
    obtain ⟨hlt, heq⟩ := List.getElem?_eq_some_iff.mp h
    rw [List.getElem_set_self] at heq
    exact Or.inl ⟨rfl, heq.symm⟩
  · exact Or.inr ⟨hij, by rwa [set_other hij] at h⟩

/-- Every party after a spawn is the new one, at the end, or an old one. -/
theorem concat_cases {ps : List π} {j : Nat} {q r : π} (h : (ps ++ [q])[j]? = some r) :
    (j = ps.length ∧ r = q) ∨ ps[j]? = some r := by
  rcases Nat.lt_or_ge j ps.length with hlt | hge
  · rw [List.getElem?_append_left hlt] at h
    exact Or.inr h
  · rw [List.getElem?_append_right hge] at h
    obtain ⟨hlt, heq⟩ := List.getElem?_eq_some_iff.mp h
    have hj : j - ps.length = 0 := by simpa using hlt
    refine Or.inl ⟨by omega, ?_⟩
    simpa [hj] using heq.symm

/-- A property that every party has stays with every party when the one that moves keeps it. -/
theorem forall_set {P : π → Prop} {ps : List π} {i : Nat} {q : π}
    (hall : ∀ (j : Nat) r, ps[j]? = some r → P r) (hq : P q) :
    ∀ (j : Nat) r, (ps.set i q)[j]? = some r → P r := by
  intro j r hr
  rcases set_cases hr with ⟨-, rfl⟩ | ⟨-, hr⟩
  · exact hq
  · exact hall j r hr

/-- What the parties contribute, before and after one of them moves. -/
theorem exists_perm_filterMap_set {β : Type*} (f : π → Option β) {ps : List π} {i : Nat} {p : π}
    (h : ps[i]? = some p) (q : π) : ∃ rest : List β,
      (ps.filterMap f).Perm ((f p).toList ++ rest) ∧
        ((ps.set i q).filterMap f).Perm ((f q).toList ++ rest) := by
  obtain ⟨hi, rfl⟩ := List.getElem?_eq_some_iff.mp h
  have hmove : ∀ r : π, ((ps.take i ++ r :: ps.drop (i + 1)).filterMap f).Perm
      ((f r).toList ++ (ps.take i ++ ps.drop (i + 1)).filterMap f) := by
    intro r
    refine (List.perm_middle.filterMap f).trans ?_
    cases hr : f r <;> simp [hr]
  refine ⟨(ps.take i ++ ps.drop (i + 1)).filterMap f, ?_, ?_⟩
  · have hps := hmove ps[i]
    rwa [← List.drop_eq_getElem_cons hi, List.take_append_drop] at hps
  · have hset := hmove q
    rwa [← List.set_eq_take_cons_drop q hi] at hset

end Interleave
