import Mathlib.Logic.Basic

/-!
# Transition systems with labelled events

A system is an initial state and a partial function `step`: `step s e = some s'` when the
event `e` can occur in `s` and leads to `s'`, `none` when it cannot.  Nondeterminism lives in
the choice of the event, so a system is executable and a run is a list of events.

* `Reach step allowed init`: the states a run reaches whose events are all `allowed` in the
  state they occur in.  A theorem about every schedule takes `allowed` to be `Always`; an
  assumption about the environment (an ordered network, one event at a time) is a stronger
  `allowed`.
* `Reach.invariant`: the induction over runs, and `Reach.invariant_below`: the same for an
  invariant that needs a bound which every earlier state of the run inherits.
* `Reach.simulated`: a system that another one follows step by step, with any number of steps for
  each of its own, reaches only what the other one reaches.
* `Reach.mono_with`: a condition on the events may be replaced by one that it implies in the
  states that are reached.
* `replay`: the state a given list of events leads to, with `Reach.of_replay`.
* `allowedAlong_congr`: two conditions on the events of a run that say the same of every event
  as long as the run is allowed so far are met by the same runs.
* `allowedAlong_of_not`: a run that ends well has only allowed events, where an event that is not
  allowed does a damage that stays.
-/

namespace Transition

variable {σ ε : Type*} {step : σ → ε → Option σ} {allowed allowed' : σ → ε → Prop} {init : σ}

/-- No restriction on the events of a run. -/
def Always : σ → ε → Prop := fun _ _ => True

instance (s : σ) (e : ε) : Decidable (Always s e) := .isTrue trivial

/-- The states reached by a run whose events are allowed where they occur. -/
inductive Reach (step : σ → ε → Option σ) (allowed : σ → ε → Prop) (init : σ) : σ → Prop
  | start : Reach step allowed init init
  | next {s s' : σ} {e : ε} :
    Reach step allowed init s → allowed s e → step s e = some s' → Reach step allowed init s'

theorem Reach.mono (le : ∀ s e, allowed s e → allowed' s e) {s : σ}
    (reach : Reach step allowed init s) : Reach step allowed' init s := by
  induction reach with
  | start => exact .start
  | next _ ok taken ih => exact .next ih (le _ _ ok) taken

/-- A condition that another one implies in the states that are reached. -/
theorem Reach.mono_with {Q : σ → Prop} (known : ∀ s, Reach step allowed init s → Q s)
    (le : ∀ s e, Q s → allowed s e → allowed' s e) {s : σ}
    (reach : Reach step allowed init s) : Reach step allowed' init s := by
  induction reach with
  | start => exact .start
  | next before ok taken ih => exact .next ih (le _ _ (known _ before) ok) taken

/-- Every allowed run is a run. -/
theorem Reach.always {s : σ} (reach : Reach step allowed init s) :
    Reach step Always init s :=
  reach.mono fun _ _ _ => trivial

theorem Reach.trans {middle s : σ} (left : Reach step allowed init middle)
    (right : Reach step allowed middle s) : Reach step allowed init s := by
  induction right with
  | start => exact left
  | next _ ok taken ih => exact .next ih ok taken

/-- **Invariants.**  What holds at the start and is kept by every allowed event holds in
every state reached. -/
theorem Reach.invariant {P : σ → Prop} (start : P init)
    (kept : ∀ s e s', P s → allowed s e → step s e = some s' → P s') {s : σ}
    (reach : Reach step allowed init s) : P s := by
  induction reach with
  | start => exact start
  | next _ ok taken ih => exact kept _ _ _ ih ok taken

/-- An invariant that may use another one already proved of the reached states. -/
theorem Reach.invariant_with {P Q : σ → Prop} (known : ∀ s, Reach step allowed init s → Q s)
    (start : P init)
    (kept : ∀ s e s', Q s → P s → allowed s e → step s e = some s' → P s') {s : σ}
    (reach : Reach step allowed init s) : P s := by
  induction reach with
  | start => exact start
  | next before ok taken ih => exact kept _ _ _ (known _ before) ih ok taken

/-- An invariant of the runs that stay within `Bounded`, where a state within the bound has
only predecessors within it (a counter that never decreases, a log that only grows). -/
theorem Reach.invariant_below {P Q Bounded : σ → Prop}
    (known : ∀ s, Reach step allowed init s → Q s)
    (back : ∀ s e s', step s e = some s' → Bounded s' → Bounded s)
    (start : P init)
    (kept : ∀ s e s', Q s → P s → Bounded s' → allowed s e → step s e = some s' → P s')
    {s : σ} (reach : Reach step allowed init s) (bounded : Bounded s) : P s := by
  induction reach with
  | start => exact start
  | next before ok taken ih =>
      exact kept _ _ _ (known _ before) (ih (back _ _ _ taken bounded)) bounded ok taken

/-- **Simulation.**  Where every step from related states is matched by a run to related states,
the states reached are related to states reached. -/
theorem Reach.simulated {τ δ : Type*} {step' : τ → δ → Option τ} {allowed' : τ → δ → Prop}
    {init' : τ} {R : σ → τ → Prop} (start : R init init')
    (matched : ∀ s t e s', Reach step allowed init s → Reach step' allowed' init' t → R s t →
      allowed s e → step s e = some s' → ∃ t', Reach step' allowed' t t' ∧ R s' t')
    {s : σ} (reach : Reach step allowed init s) :
    ∃ t, Reach step' allowed' init' t ∧ R s t := by
  induction reach with
  | start => exact ⟨init', .start, start⟩
  | next before ok taken ih =>
      obtain ⟨t, reach', related⟩ := ih
      obtain ⟨t', run, related'⟩ := matched _ t _ _ before reach' related ok taken
      exact ⟨t', reach'.trans run, related'⟩

/-- The state a list of events leads to. -/
def replay (step : σ → ε → Option σ) : σ → List ε → Option σ
  | s, [] => some s
  | s, e :: events => (step s e).bind fun s' => replay step s' events

/-- Whether every event of a list is allowed where it occurs. -/
def allowedAlong (step : σ → ε → Option σ) (allowed : σ → ε → Prop) : σ → List ε → Prop
  | _, [] => True
  | s, e :: events => allowed s e ∧ ∀ s' ∈ step s e, allowedAlong step allowed s' events

instance decidableAllowedAlong [∀ s e, Decidable (allowed s e)] :
    ∀ s events, Decidable (allowedAlong step allowed s events)
  | _, [] => .isTrue trivial
  | s, e :: events =>
      have := fun s' => decidableAllowedAlong s' events
      inferInstanceAs (Decidable (allowed s e ∧ ∀ s' ∈ step s e, _))

theorem Reach.of_replay {events : List ε} {s : σ} (along : allowedAlong step allowed init events)
    (replayed : replay step init events = some s) : Reach step allowed init s := by
  induction events generalizing init with
  | nil =>
      cases replayed
      exact .start
  | cons e events ih =>
      obtain ⟨middle, taken, rest⟩ := Option.bind_eq_some_iff.mp replayed
      exact (Reach.next .start along.1 taken).trans (ih (along.2 _ taken) rest)

/-- The last state of a replay that goes through. -/
theorem Reach.of_isSome {events : List ε} (along : allowedAlong step allowed init events)
    (through : (replay step init events).isSome = true) :
    Reach step allowed init ((replay step init events).get through) :=
  .of_replay along (Option.some_get through).symm

/-- **Conditions on runs.**  Where the runs that are allowed keep `I`, and `I` makes `P` and
`allowed` say the same of the next event, they say the same of a run. -/
theorem allowedAlong_congr {I : σ → Prop} {P : σ → ε → Prop}
    (same : ∀ s e, I s → (P s e ↔ allowed s e))
    (kept : ∀ s e s', I s → allowed s e → step s e = some s' → I s') {s : σ} (start : I s)
    (events : List ε) : allowedAlong step P s events ↔ allowedAlong step allowed s events := by
  induction events generalizing s with
  | nil => exact Iff.rfl
  | cons e events ih =>
      constructor
      · rintro ⟨first, rest⟩
        have ok := (same s e start).mp first
        exact ⟨ok, fun s' taken => (ih (kept s e s' start ok taken)).mp (rest s' taken)⟩
      · rintro ⟨ok, rest⟩
        exact ⟨(same s e start).mpr ok,
          fun s' taken => (ih (kept s e s' start ok taken)).mpr (rest s' taken)⟩

/-- The states that a run goes through, the first one included. -/
def Visits (step : σ → ε → Option σ) (init : σ) (events : List ε) (s : σ) : Prop :=
  ∃ earlier later, events = earlier ++ later ∧ replay step init earlier = some s

/-- What holds in every state of a run holds at its start and after every event. -/
theorem forall_visits_iff {P : σ → Prop} {init : σ} {events : List ε} :
    (∀ s, Visits step init events s → P s) ↔
      P init ∧ allowedAlong step (fun s e => ∀ s' ∈ step s e, P s') init events := by
  constructor
  · intro all
    refine ⟨all init ⟨[], events, rfl, rfl⟩, ?_⟩
    induction events generalizing init with
    | nil => trivial
    | cons e events ih =>
        have after : ∀ s' ∈ step init e, ∀ s, Visits step s' events s → P s := by
          rintro s' taken s ⟨earlier, later, rfl, led⟩
          refine all s ⟨e :: earlier, later, rfl, ?_⟩
          rw [replay, taken, Option.bind_some, led]
        exact ⟨fun s' taken => after s' taken s' ⟨[], events, rfl, rfl⟩,
          fun s' taken => ih (after s' taken)⟩
  · rintro ⟨first, along⟩ s ⟨earlier, later, rfl, led⟩
    induction earlier generalizing init with
    | nil =>
        cases led
        exact first
    | cons e earlier ih =>
        obtain ⟨middle, taken, led⟩ := Option.bind_eq_some_iff.mp led
        exact ih (along.1 middle taken) led (along.2 middle taken)

theorem allowedAlong_always (s : σ) (events : List ε) : allowedAlong step Always s events := by
  induction events generalizing s with
  | nil => trivial
  | cons e events ih => exact ⟨trivial, fun s' _ => ih s'⟩

/-- **Lasting damage.**  Where an event that is not allowed leads to `B`, which no event mends, a
run to a state that is not `B` has only allowed events.  `Q` is a known invariant. -/
theorem allowedAlong_of_not {Q B : σ → Prop}
    (known : ∀ s e s', Q s → step s e = some s' → Q s')
    (damage : ∀ s e s', Q s → ¬ allowed s e → step s e = some s' → B s')
    (stays : ∀ s e s', Q s → B s → step s e = some s' → B s') {events : List ε} {s : σ}
    (start : Q init) (led : replay step init events = some s) (good : ¬ B s) :
    allowedAlong step allowed init events := by
  induction events generalizing init with
  | nil => trivial
  | cons e events ih =>
      obtain ⟨middle, taken, led'⟩ := Option.bind_eq_some_iff.mp led
      have here := known init e middle start taken
      refine ⟨?_, fun s' taken' => ?_⟩
      · refine Classical.byContradiction fun forbidden => ?_
        have bad := damage init e middle start forbidden taken
        have reach : Reach step Always middle s := .of_replay (allowedAlong_always _ _) led'
        exact good (reach.invariant (P := fun s => Q s ∧ B s) ⟨here, bad⟩
          fun s e s' h _ taken => ⟨known s e s' h.1 taken, stays s e s' h.1 h.2 taken⟩).2
      · rw [taken] at taken'
        cases taken'
        exact ih here led'

end Transition
