import Mathlib.Order.Defs.Unbundled

/-!
# Sessions

Two parties at the ends of a connection, each with an inbox of messages on the way to it.

A protocol says which roles the two parties play together, with what in their inboxes
(`joint`).  A party may leave at any time and plays no role then, and what is on the way to
it stays; so a session is what the roles still played can have come from.  Nothing is said
about which end plays the first of two joint roles.
-/

section Session

variable {ρ μ : Type*}

/-- The roles `P` and `P'` that are still played at the two ends belong to a joint state. -/
def Session (joint : ρ → ρ → List μ → List μ → Prop) (P P' : ρ → Prop)
    (inbox inbox' : List μ) : Prop :=
  ∃ R R', (∀ Q, P Q → Q = R) ∧ (∀ Q, P' Q → Q = R') ∧
    (joint R R' inbox inbox' ∨ joint R' R inbox' inbox)

namespace Session

variable {joint : ρ → ρ → List μ → List μ → Prop} {P P' P₂ P₂' : ρ → Prop} {R R₂ : ρ}
  {inbox inbox' inbox₂ inbox₂' : List μ}

theorem symm (h : Session joint P P' inbox inbox') : Session joint P' P inbox' inbox := by
  obtain ⟨R, R', plays, plays', here⟩ := h
  exact ⟨R', R, plays', plays, here.symm⟩

/-- Roles that are given up. -/
theorem leave (h : Session joint P P' inbox inbox') (fewer : ∀ Q, P₂ Q → P Q)
    (fewer' : ∀ Q, P₂' Q → P' Q) : Session joint P₂ P₂' inbox inbox' := by
  obtain ⟨R, R', plays, plays', here⟩ := h
  exact ⟨R, R', fun Q now => plays Q (fewer Q now), fun Q now => plays' Q (fewer' Q now), here⟩

/-- A step of one party, from the role it plays to another one. -/
theorem step (h : Session joint P P' inbox inbox') (plays : P R) (next : ∀ Q, P₂ Q → Q = R₂)
    (first : ∀ R', joint R R' inbox inbox' → joint R₂ R' inbox₂ inbox₂')
    (second : ∀ R', joint R' R inbox' inbox → joint R' R₂ inbox₂' inbox₂) :
    Session joint P₂ P' inbox₂ inbox₂' := by
  obtain ⟨Q, R', unique, plays', here⟩ := h
  rw [← unique R plays] at here
  refine ⟨R₂, R', next, plays', ?_⟩
  rcases here with here | here
  · exact Or.inl (first R' here)
  · exact Or.inr (second R' here)

/-- A step after which one party plays no role. -/
theorem quit (h : Session joint P P' inbox inbox') (none : ∀ Q, ¬ P₂ Q)
    (first : ∀ Q R', joint Q R' inbox inbox' → ∃ Q', joint Q' R' inbox₂ inbox₂')
    (second : ∀ Q R', joint R' Q inbox' inbox → ∃ Q', joint R' Q' inbox₂' inbox₂) :
    Session joint P₂ P' inbox₂ inbox₂' := by
  obtain ⟨Q, R', _, plays', here⟩ := h
  rcases here with here | here
  · obtain ⟨Q', here⟩ := first Q R' here
    exact ⟨Q', R', fun _ now => (none _ now).elim, plays', Or.inl here⟩
  · obtain ⟨Q', here⟩ := second Q R' here
    exact ⟨Q', R', fun _ now => (none _ now).elim, plays', Or.inr here⟩

/-- What holds of a role in all joint states holds of one that is played. -/
theorem holds (h : Session joint P P' inbox inbox') (plays : P R) {q : Prop}
    (first : ∀ R', joint R R' inbox inbox' → q) (second : ∀ R', joint R' R inbox' inbox → q) :
    q := by
  obtain ⟨Q, R', unique, _, here⟩ := h
  rw [← unique R plays] at here
  rcases here with here | here
  · exact first R' here
  · exact second R' here

end Session

end Session
