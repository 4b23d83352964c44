import Mathlib.Data.Set.Prod

/-!
# Obligations

Items are entered, and each of them is then owed to the same recipients, until the pairs of an
item and a recipient are discharged one by one.  A history lists the operations, the latest
first.

When no item is entered twice, a pair that has been owed is either still owed or has been met
exactly once (`met_add_owed`).
-/

namespace Obligations

variable {ι ρ : Type*}

inductive Op (ι ρ : Type*) where
  | enter (i : ι)
  | discharge (i : ι) (r : ρ)

/-- The pairs that are owed after a history. -/
def owed (recipients : Set ρ) : List (Op ι ρ) → Set (ι × ρ)
  | [] => ∅
  | .enter i :: history => owed recipients history ∪ {i} ×ˢ recipients
  | .discharge i r :: history => owed recipients history \ {(i, r)}

open Classical in
/-- How often a discharge has found the pair owed. -/
noncomputable def met (recipients : Set ρ) (p : ι × ρ) : List (Op ι ρ) → ℕ
  | [] => 0
  | .enter _ :: history => met recipients p history
  | .discharge i r :: history =>
      (if (i, r) = p ∧ p ∈ owed recipients history then 1 else 0) + met recipients p history

/-- The items entered, the latest first. -/
def entered : List (Op ι ρ) → List ι
  | [] => []
  | .enter i :: history => i :: entered history
  | .discharge _ _ :: history => entered history

variable {recipients : Set ρ} {history : List (Op ι ρ)} {i j : ι} {r q : ρ}

@[simp] theorem mem_owed_enter : (j, q) ∈ owed recipients (.enter i :: history) ↔
    (j, q) ∈ owed recipients history ∨ j = i ∧ q ∈ recipients :=
  Iff.rfl

@[simp] theorem mem_owed_discharge : (j, q) ∈ owed recipients (.discharge i r :: history) ↔
    (j, q) ∈ owed recipients history ∧ ¬ (j = i ∧ q = r) := by
  change (j, q) ∈ owed recipients history \ {(i, r)} ↔ _
  rw [Set.mem_sdiff, Set.mem_singleton_iff, Prod.mk.injEq]

/-- What is owed has been entered, for one of the recipients. -/
theorem entered_of_owed (mem : (j, q) ∈ owed recipients history) :
    j ∈ entered history ∧ q ∈ recipients := by
  induction history with
  | nil => cases mem
  | cons op history ih =>
      cases op with
      | enter i =>
          rcases mem_owed_enter.mp mem with before | ⟨rfl, here⟩
          · obtain ⟨old, here⟩ := ih before
            exact ⟨List.mem_cons_of_mem _ old, here⟩
          · exact ⟨List.mem_cons_self, here⟩
      | discharge i r => exact ih (mem_owed_discharge.mp mem).1

/-- An item that has not been entered has not been met. -/
theorem met_eq_zero (outside : j ∉ entered history) : met recipients (j, q) history = 0 := by
  induction history with
  | nil => rfl
  | cons op history ih =>
      cases op with
      | enter i => exact ih fun mem => outside (List.mem_cons_of_mem _ mem)
      | discharge i r =>
          have unmet : ¬ ((i, r) = (j, q) ∧ (j, q) ∈ owed recipients history) := fun both =>
            outside (entered_of_owed both.2).1
          rw [met, ih outside, if_neg unmet]

open Classical in
/-- **Once.**  What has been entered is owed still, or has been met. -/
theorem met_add_owed (distinct : (entered history).Nodup) (mem : j ∈ entered history)
    (here : q ∈ recipients) :
    met recipients (j, q) history + (if (j, q) ∈ owed recipients history then 1 else 0) = 1 := by
  induction history with
  | nil => cases mem
  | cons op history ih =>
      cases op with
      | enter i =>
          obtain ⟨new, distinct⟩ := List.nodup_cons.mp distinct
          rcases List.mem_cons.mp mem with rfl | old
          · have nothing : met recipients (j, q) history = 0 := met_eq_zero new
            rw [met, nothing, if_pos (mem_owed_enter.mpr (Or.inr ⟨rfl, here⟩))]
          · have other : j ≠ i := by
              rintro rfl
              exact new old
            have before := ih distinct old
            simp only [mem_owed_enter, other, false_and, or_false]
            exact before
      | discharge i r =>
          have before := ih distinct mem
          rw [met]
          by_cases same : j = i ∧ q = r
          · obtain ⟨rfl, rfl⟩ := same
            simp only [mem_owed_discharge, true_and, and_self, not_true_eq_false, and_false,
              if_false]
            omega
          · have apart : ¬ (i, r) = (j, q) := fun eq => same (by cases eq; exact ⟨rfl, rfl⟩)
            simp only [mem_owed_discharge, same, apart, not_false_eq_true, and_true, false_and,
              if_false, Nat.zero_add]
            exact before

end Obligations
