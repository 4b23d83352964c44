import Mathlib.Data.List.TakeWhile

/-!
# Logs

A log is the list of what has happened, the latest last.

* `before p log`: what has happened before the first entry with `p`.
* `since p log`: what has happened from that entry on.
* `window p q log`: what has happened from the first entry with `p` until the next one with `q`.

A log only grows at its end, so each of them comes with what it makes of one more entry.
-/

namespace Log

variable {α : Type*} {p q : α → Bool} {log new : List α} {x : α}

def before (p : α → Bool) (log : List α) : List α :=
  log.takeWhile fun x => !p x

def since (p : α → Bool) (log : List α) : List α :=
  log.dropWhile fun x => !p x

def window (p q : α → Bool) (log : List α) : List α :=
  before q (since p log)

theorem subset_of_before (mem : x ∈ before p log) : x ∈ log :=
  (List.takeWhile_sublist _).subset mem

theorem subset_of_since (mem : x ∈ since p log) : x ∈ log :=
  (List.dropWhile_sublist _).subset mem

/-- Nothing is added before an entry that is there. -/
theorem before_append_of_mem (mem : x ∈ log) (found : p x = true) (new : List α) :
    before p (log ++ new) = before p log := by
  induction log with
  | nil => cases mem
  | cons y log ih =>
      unfold before at ih ⊢
      rw [List.cons_append, List.takeWhile_cons, List.takeWhile_cons]
      cases first : p y with
      | true => rfl
      | false =>
          rcases List.mem_cons.mp mem with same | later
          · rw [same, first] at found
            cases found
          · rw [ih later]

theorem before_append_of_forall (none : ∀ y ∈ log, p y = false) (new : List α) :
    before p (log ++ new) = log ++ before p new := by
  unfold before
  apply List.takeWhile_append_of_pos
  intro y mem
  rw [none y mem]
  rfl

theorem before_of_forall (none : ∀ y ∈ log, p y = false) : before p log = log := by
  unfold before
  apply List.takeWhile_eq_self_iff.mpr
  intro y mem
  rw [none y mem]
  rfl

theorem since_append_of_forall (none : ∀ y ∈ log, p y = false) (new : List α) :
    since p (log ++ new) = since p new := by
  unfold since
  apply List.dropWhile_append_of_pos
  intro y mem
  rw [none y mem]
  rfl

theorem since_append_of_mem (mem : x ∈ log) (found : p x = true) (new : List α) :
    since p (log ++ new) = since p log ++ new := by
  induction log with
  | nil => cases mem
  | cons y log ih =>
      unfold since at ih ⊢
      rw [List.cons_append, List.dropWhile_cons, List.dropWhile_cons]
      cases first : p y with
      | true => rfl
      | false =>
          rcases List.mem_cons.mp mem with same | later
          · rw [same, first] at found
            cases found
          · exact ih later

/-! ## One more entry in a window -/

/-- The entry that opens the window. -/
theorem window_concat_of_forall (none : ∀ y ∈ log, p y = false) (opens : p x = true)
    (stays : q x = false) : window p q (log ++ [x]) = [x] := by
  rw [window, since_append_of_forall none, since, List.dropWhile_cons, opens]
  change before q [x] = [x]
  apply before_of_forall
  intro y mem
  rwa [List.mem_singleton.mp mem]

/-- An entry in an open window. -/
theorem window_concat (opened : ∃ y ∈ log, p y = true) (none : ∀ y ∈ log, q y = false)
    (stays : q x = false) : window p q (log ++ [x]) = window p q log ++ [x] := by
  obtain ⟨y, mem, opens⟩ := opened
  have notYet : ∀ y ∈ since p log, q y = false := fun y inside => none y (subset_of_since inside)
  rw [window, since_append_of_mem mem opens, before_append_of_forall notYet, window,
    before_of_forall notYet]
  congr 1
  apply before_of_forall
  intro z single
  rwa [List.mem_singleton.mp single]

/-- The entry that closes the window. -/
theorem window_concat_of_closes (opened : ∃ y ∈ log, p y = true) (closes : q x = true) :
    window p q (log ++ [x]) = window p q log := by
  obtain ⟨y, mem, opens⟩ := opened
  rw [window, since_append_of_mem mem opens, window]
  by_cases closed : ∃ z ∈ since p log, q z = true
  · obtain ⟨z, inside, found⟩ := closed
    exact before_append_of_mem inside found _
  · have notYet : ∀ z ∈ since p log, q z = false := by
      intro z inside
      rw [← Bool.not_eq_true]
      exact fun found => closed ⟨z, inside, found⟩
    rw [before_append_of_forall notYet, before_of_forall notYet, before, List.takeWhile_cons,
      closes]
    exact List.append_nil _

/-- An entry behind a closed window. -/
theorem window_concat_of_closed (opened : ∃ y ∈ log, p y = true)
    (closed : ∃ y ∈ since p log, q y = true) :
    window p q (log ++ [x]) = window p q log := by
  obtain ⟨y, mem, opens⟩ := opened
  obtain ⟨z, inside, found⟩ := closed
  rw [window, since_append_of_mem mem opens, before_append_of_mem inside found, window]

end Log
