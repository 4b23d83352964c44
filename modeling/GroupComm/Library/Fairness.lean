import Mathlib.Data.List.Infix
import Mathlib.Order.Filter.AtTopBot.Basic
import Mathlib.Order.Filter.Finite
import GroupComm.Library.Transition

/-!
# Infinite runs and what must happen in them

`Reach` says what can happen.  A `Run` is an infinite run, in which nothing may happen at some
times, and `∀ᶠ n in atTop` and `∃ᶠ n in atTop` say what is so from some time on and what is so
again and again.

* `Exchange.ends_often`: a request that is repeated as long as it has not been answered, over
  channels that lose but do not lose for ever, is answered.
* `Run.Fair`: every activity that is possible again and again goes on.  `Fair.leads_to` is the rule
  of ranks for it: in each state one activity brings the goal nearer, and stays possible until it
  goes on.
* `eventually_empty`: a finite set that only shrinks, and that every element leaves, is empty from
  some time on.
* `eventually_eq_of_prefix`: a log of bounded length comes to an end.
* `Run.ofReplay`: a finite run, after which nothing happens.
* `Run.ends`: a run in which a measure falls comes to an end.
* `Reach.exhaust`: a goal that some run comes nearer to from every state can be reached.
-/

namespace Transition

open Filter

variable {σ ε : Type*} {step : σ → ε → Option σ} {allowed : σ → ε → Prop} {init : σ}

/-- The state at each time, and what happens then. -/
structure Run (step : σ → ε → Option σ) (allowed : σ → ε → Prop) (init : σ) where
  state : ℕ → σ
  event : ℕ → Option ε
  first : state 0 = init
  idle : ∀ n, event n = none → state (n + 1) = state n
  happens : ∀ n e, event n = some e →
    allowed (state n) e ∧ step (state n) e = some (state (n + 1))

namespace Run

variable (r : Run step allowed init)

theorem reach_of {allowed' : σ → ε → Prop}
    (ok : ∀ n e, r.event n = some e → allowed' (r.state n) e) (n : ℕ) :
    Reach step allowed' init (r.state n) := by
  induction n with
  | zero =>
      rw [r.first]
      exact .start
  | succ n ih =>
      cases event : r.event n with
      | none =>
          rw [r.idle n event]
          exact ih
      | some e => exact ih.next (ok n e event) (r.happens n e event).2

theorem reach (n : ℕ) : Reach step allowed init (r.state n) :=
  r.reach_of (fun n e event => (r.happens n e event).1) n

/-- What no step takes away. -/
theorem stays {r : Run step allowed init} {P : σ → Prop}
    (kept : ∀ n e, r.event n = some e → P (r.state n) → P (r.state (n + 1))) {n : ℕ}
    (now : P (r.state n)) {m : ℕ} (later : n ≤ m) : P (r.state m) := by
  induction m, later using Nat.le_induction with
  | base => exact now
  | succ m _ ih =>
      cases event : r.event m with
      | none =>
          rw [r.idle m event]
          exact ih
      | some e => exact kept m e event ih

/-- **Termination.**  Where every event of a kind makes a measure smaller and no other event makes
it larger, and events of that kind happen as long as they can, there are none any more from some
time on. -/
theorem ends {μ : Type*} [Preorder μ] [WellFoundedLT μ] (measure : σ → μ) (progress : ε → Prop)
    {r : Run step allowed init}
    (lower : ∀ n e, r.event n = some e → progress e →
      measure (r.state (n + 1)) < measure (r.state n))
    (notHigher : ∀ n e, r.event n = some e → ¬ progress e →
      measure (r.state (n + 1)) ≤ measure (r.state n))
    (goesOn : ∀ n e, progress e → allowed (r.state n) e → step (r.state n) e ≠ none →
      ∃ m e', n ≤ m ∧ r.event m = some e' ∧ progress e') :
    ∃ n, ∀ m, n ≤ m → ∀ e, progress e → allowed (r.state m) e → step (r.state m) e = none := by
  have falls : Antitone fun n => measure (r.state n) := by
    refine antitone_nat_of_succ_le fun n => ?_
    cases event : r.event n with
    | none => rw [r.idle n event]
    | some e =>
        by_cases moves : progress e
        · exact le_of_lt (lower n e event moves)
        · exact notHigher n e event moves
  obtain ⟨_, ⟨n, rfl⟩, least⟩ := wellFounded_lt.has_min
    (Set.range fun n => measure (r.state n)) (Set.range_nonempty _)
  refine ⟨n, fun m later e moves ok => ?_⟩
  by_contra can
  obtain ⟨l, e', later', event, moves'⟩ := goesOn m e moves ok can
  exact least _ ⟨l + 1, rfl⟩
    (lt_of_lt_of_le (lower l e' event moves') (falls (Nat.le_trans later later')))

end Run

/-! ## Fair runs -/

section Fair

variable {κ : Type*} {serves : κ → σ → ε → Prop} {r : Run step allowed init}

/-- Event `e` can happen and goes on with activity `k`. -/
def CanServe (step : σ → ε → Option σ) (serves : κ → σ → ε → Prop) (k : κ) (s : σ) : Prop :=
  ∃ e, serves k s e ∧ step s e ≠ none

/-- At time `n` activity `k` goes on. -/
def Run.Served (r : Run step allowed init) (serves : κ → σ → ε → Prop) (k : κ) (n : ℕ) : Prop :=
  ∃ e, r.event n = some e ∧ serves k (r.state n) e

/-- Whatever is possible again and again happens again and again. -/
def Run.Fair (r : Run step allowed init) (serves : κ → σ → ε → Prop) : Prop :=
  ∀ k, (∃ᶠ n in atTop, CanServe step serves k (r.state n)) → ∃ᶠ n in atTop, r.Served serves k n

theorem Run.fair_of_still
    (still : ∀ᶠ n in atTop, ∀ k, ¬ CanServe step serves k (r.state n)) : r.Fair serves := by
  intro k often
  obtain ⟨n, can, cannot⟩ := (often.and_eventually still).exists
  exact (cannot k can).elim

/-- What stays until an activity goes on that it makes possible does not stay for ever. -/
theorem Run.Fair.happens (fair : r.Fair serves) {P : σ → Prop} {k : κ} {start : ℕ}
    (often : (∀ n, start ≤ n → P (r.state n)) →
      ∃ᶠ n in atTop, CanServe step serves k (r.state n))
    (kept : ∀ n e, start ≤ n → r.event n = some e → P (r.state n) → ¬ serves k (r.state n) e →
      P (r.state (n + 1)))
    (now : P (r.state start)) : ∃ n, start ≤ n ∧ P (r.state n) ∧ r.Served serves k n := by
  by_contra never
  have holds : ∀ n, start ≤ n → P (r.state n) := by
    intro n later
    induction n, later using Nat.le_induction with
    | base => exact now
    | succ n later ih =>
        cases event : r.event n with
        | none =>
            rw [r.idle n event]
            exact ih
        | some e =>
            exact kept n e later event ih fun served => never ⟨n, later, ih, e, event, served⟩
  obtain ⟨n, later, served⟩ := frequently_atTop.mp (fair k (often holds)) start
  exact never ⟨n, later, holds n later, served⟩

/-- **The rule of ranks.**  In each state short of the goal one activity is `helpful`.  No event
makes the rank larger, an event that leaves it as it is leaves the helpful activity as it is, and
one that serves this activity makes the rank smaller or reaches the goal. -/
theorem Run.Fair.leads_to {μ : Type*} [Preorder μ] [WellFoundedLT μ] (fair : r.Fair serves)
    (rank : σ → μ) (helpful : σ → κ) (goal : σ → Prop) {P : σ → Prop} {start : ℕ}
    (often : ∀ m, start ≤ m → ∀ k, (∀ n, m ≤ n → P (r.state n) ∧ helpful (r.state n) = k) →
      ∃ᶠ n in atTop, CanServe step serves k (r.state n))
    (moves : ∀ n e, start ≤ n → r.event n = some e → P (r.state n) →
      goal (r.state (n + 1)) ∨ P (r.state (n + 1)) ∧
        (rank (r.state (n + 1)) < rank (r.state n) ∨
          rank (r.state (n + 1)) = rank (r.state n) ∧
            helpful (r.state (n + 1)) = helpful (r.state n) ∧
              ¬ serves (helpful (r.state n)) (r.state n) e))
    (now : P (r.state start)) : ∃ n, start ≤ n ∧ goal (r.state n) := by
  by_contra never
  have short (n : ℕ) (later : start ≤ n) : ¬ goal (r.state n) := fun there =>
    never ⟨n, later, there⟩
  -- no state of the run has a smallest rank
  suffices none : ∀ (x : μ) (n : ℕ), start ≤ n → P (r.state n) → rank (r.state n) = x → False from
    none _ start (Nat.le_refl _) now rfl
  intro x
  induction x using WellFoundedLT.induction with
  | _ x ih =>
      intro m later here rank'
      have waits : ∃ n, m ≤ n ∧ (P (r.state n) ∧ rank (r.state n) = x ∧
          helpful (r.state n) = helpful (r.state m)) ∧
            r.Served serves (helpful (r.state m)) n := by
        refine fair.happens (P := fun s => P s ∧ rank s = x ∧ helpful s = helpful (r.state m))
          (fun holds => ?_) (fun n e after event holds _ => ?_) ⟨here, rank', rfl⟩
        · exact often m later _ fun n after => ⟨(holds n after).1, (holds n after).2.2⟩
        · obtain ⟨here', same, helpful'⟩ := holds
          have later' := Nat.le_trans later after
          rcases moves n e later' event here' with there | ⟨next, less | ⟨equal, stays, _⟩⟩
          · exact absurd there (short (n + 1) (Nat.le_succ_of_le later'))
          · exact (ih _ (same ▸ less) (n + 1) (Nat.le_succ_of_le later') next rfl).elim
          · exact ⟨next, equal.trans same, stays.trans helpful'⟩
      obtain ⟨n, after, ⟨here', same, helpful'⟩, e, event, served⟩ := waits
      have later' := Nat.le_trans later after
      rcases moves n e later' event here' with there | ⟨next, less | ⟨_, _, other⟩⟩
      · exact short (n + 1) (Nat.le_succ_of_le later') there
      · exact ih _ (same ▸ less) (n + 1) (Nat.le_succ_of_le later') next rfl
      · exact other (helpful' ▸ served)

end Fair

/-! ## Requests and answers -/

theorem frequently_of_succ {P : ℕ → Prop} (often : ∃ᶠ n in atTop, P (n + 1)) :
    ∃ᶠ n in atTop, P n := by
  rw [frequently_atTop] at often ⊢
  intro a
  obtain ⟨b, le, holds⟩ := often a
  exact ⟨b + 1, Nat.le_succ_of_le le, holds⟩

/-- A request that is repeated while an answer is awaited; `request` and `answer` say that one
is in flight, `asked` and `answered` that one arrives. -/
structure Exchange (awaited request asked answer answered : ℕ → Prop) : Prop where
  repeats : (∀ᶠ n in atTop, awaited n) → ∃ᶠ n in atTop, request n
  arrives : (∃ᶠ n in atTop, request n) → ∃ᶠ n in atTop, asked n
  replies : ∀ n, asked n → answer (n + 1)
  returns : (∃ᶠ n in atTop, answer n) → ∃ᶠ n in atTop, answered n
  ends : ∀ n, answered n → ¬ awaited (n + 1)

theorem Exchange.ends_often {awaited request asked answer answered : ℕ → Prop}
    (h : Exchange awaited request asked answer answered) : ∃ᶠ n in atTop, ¬ awaited n := by
  intro always
  have still : ∀ᶠ n in atTop, awaited n := always.mono fun _ => not_not.mp
  have asked := h.arrives (h.repeats still)
  have answered := h.returns (frequently_of_succ (asked.mono h.replies))
  exact frequently_of_succ (answered.mono h.ends) always

/-! ## What comes to an end -/

theorem eventually_empty {α : Type*} {S : ℕ → Set α} {start : ℕ} (finite : (S start).Finite)
    (shrinks : ∀ n, start ≤ n → S (n + 1) ⊆ S n) (leaves : ∀ x, ∃ᶠ n in atTop, x ∉ S n) :
    ∀ᶠ n in atTop, S n = ∅ := by
  have within : ∀ m n, start ≤ m → m ≤ n → S n ⊆ S m := by
    intro m n le later
    induction n, later using Nat.le_induction with
    | base => exact Set.Subset.refl _
    | succ n later ih => exact (shrinks n (Nat.le_trans le later)).trans ih
  have gone : ∀ x ∈ S start, ∀ᶠ n in atTop, x ∉ S n := by
    intro x _
    obtain ⟨m, le, left⟩ := frequently_atTop.mp (leaves x) start
    exact eventually_atTop.mpr ⟨m, fun n later mem => left (within m n le later mem)⟩
  filter_upwards [finite.eventually_all.mpr gone, eventually_ge_atTop start] with n none later
  exact Set.eq_empty_iff_forall_notMem.mpr fun x mem =>
    none x (within start n (Nat.le_refl _) later mem) mem

theorem eventually_eq_of_prefix {α : Type*} {log : ℕ → List α}
    (grows : ∀ n, log n <+: log (n + 1)) {bound : ℕ} (bounded : ∀ n, (log n).length ≤ bound) :
    ∃ full, ∀ᶠ n in atTop, log n = full := by
  have monotone : ∀ m n, m ≤ n → log m <+: log n := by
    intro m n later
    induction n, later using Nat.le_induction with
    | base => exact List.prefix_refl _
    | succ n _ ih => exact ih.trans (grows n)
  -- the time at which the log is longest
  let last := Function.argmin fun n => bound - (log n).length
  refine ⟨log last, eventually_atTop.mpr ⟨last, fun n later => ?_⟩⟩
  have longest : bound - (log last).length ≤ bound - (log n).length :=
    Function.argmin_le (fun n => bound - (log n).length) n
  have short := bounded n
  have short' := bounded last
  exact ((monotone last n later).eq_of_length_le (by omega)).symm

/-- **Possible progress.**  Where every state with `P` that is not at the goal leads to one with `P`
and a smaller measure, the goal can be reached. -/
theorem Reach.exhaust {μ : Type*} {less : μ → μ → Prop} (wf : WellFounded less) (measure : σ → μ)
    {P goal : σ → Prop}
    (nearer : ∀ s, P s → ¬ goal s →
      ∃ s', Reach step allowed s s' ∧ P s' ∧ less (measure s') (measure s))
    (s : σ) (start : P s) : ∃ s', Reach step allowed s s' ∧ P s' ∧ goal s' := by
  have lower : WellFounded (InvImage less measure) := InvImage.wf measure wf
  induction s using lower.induction with
  | _ s ih =>
      by_cases done : goal s
      · exact ⟨s, .start, start, done⟩
      · obtain ⟨s', run, here, less⟩ := nearer s start done
        obtain ⟨last, rest, there, done⟩ := ih s' less here
        exact ⟨last, run.trans rest, there, done⟩

/-! ## Finite runs -/

/-- The states of a finite run, the last one for ever. -/
def stateAt (step : σ → ε → Option σ) : σ → List ε → ℕ → σ
  | s, [], _ => s
  | s, _ :: _, 0 => s
  | s, e :: events, n + 1 => stateAt step ((step s e).getD s) events n

theorem stateAt_zero (s : σ) (events : List ε) : stateAt step s events 0 = s := by
  cases events <;> rfl

theorem stateAt_idle {s : σ} {events : List ε} {n : ℕ} (ended : events[n]? = none) :
    stateAt step s events (n + 1) = stateAt step s events n := by
  induction events generalizing s n with
  | nil => rfl
  | cons e events ih =>
      cases n with
      | zero => cases ended
      | succ n => exact ih (by simpa using ended)

theorem stateAt_happens {s : σ} {events : List ε} (along : allowedAlong step allowed s events)
    (through : (replay step s events).isSome = true) {n : ℕ} {e : ε}
    (now : events[n]? = some e) :
    allowed (stateAt step s events n) e ∧
      step (stateAt step s events n) e = some (stateAt step s events (n + 1)) := by
  induction events generalizing s n with
  | nil => cases now
  | cons first events ih =>
      obtain ⟨last, replayed⟩ := Option.isSome_iff_exists.mp through
      obtain ⟨middle, taken, rest⟩ := Option.bind_eq_some_iff.mp replayed
      have next : (step s first).getD s = middle := by rw [taken, Option.getD_some]
      cases n with
      | zero =>
          cases now
          refine ⟨along.1, ?_⟩
          rw [stateAt, stateAt, next, stateAt_zero]
          exact taken
      | succ n =>
          rw [stateAt, stateAt, next]
          exact ih (along.2 _ taken) (Option.isSome_iff_exists.mpr ⟨last, rest⟩)
            (by simpa using now)

theorem stateAt_last {s : σ} {events : List ε} {last : σ}
    (replayed : replay step s events = some last) {n : ℕ} (ended : events.length ≤ n) :
    stateAt step s events n = last := by
  induction events generalizing s n with
  | nil =>
      cases replayed
      rfl
  | cons e events ih =>
      obtain ⟨middle, taken, rest⟩ := Option.bind_eq_some_iff.mp replayed
      cases n with
      | zero => cases ended
      | succ n =>
          rw [stateAt, taken, Option.getD_some]
          exact ih rest (Nat.le_of_succ_le_succ ended)

/-- A finite run, after which nothing happens. -/
def Run.ofReplay (events : List ε) (along : allowedAlong step allowed init events)
    (through : (replay step init events).isSome = true) : Run step allowed init where
  state := stateAt step init events
  event n := events[n]?
  first := stateAt_zero init events
  idle _ := stateAt_idle
  happens _ _ := stateAt_happens along through

end Transition
