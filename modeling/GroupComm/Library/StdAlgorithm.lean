import Mathlib.Data.List.Sort

/-!
# `std::sort` and `std::max_element`

Both C++ algorithms take a comparator that must be a strict weak order.  `KeyedBy lt key`
says so by naming the key the comparator compares: elements with equal keys are equivalent.

* `StdSort lt` is an implementation of `std::sort`: it returns a permutation in which no
  element is smaller than an earlier one.  Equivalent elements may come in any order, so a
  result proved for every `StdSort` does not depend on it.
* `maxElement lt` is `std::max_element`, the loop that keeps the first largest element.
-/

namespace StdAlgorithm

variable {α β : Type*}

/-- The comparator compares the keys. -/
def KeyedBy [LT β] (lt : α → α → Bool) (key : α → β) : Prop :=
  ∀ a b, lt a b = true ↔ key a < key b

theorem KeyedBy.not_lt_iff [LinearOrder β] {lt : α → α → Bool} {key : α → β}
    (keyed : KeyedBy lt key) (a b : α) : lt a b = false ↔ key b ≤ key a := by
  rw [← not_lt, ← keyed a b, Bool.not_eq_true]

/-! ## Sorting -/

/-- An implementation of `std::sort` for the comparator `lt`. -/
structure StdSort (lt : α → α → Bool) where
  run : List α → List α
  perm : ∀ l, (run l).Perm l
  sorted : ∀ l, (run l).Pairwise fun a b => lt b a = false

theorem StdSort.mem_run {lt : α → α → Bool} (sort : StdSort lt) {l : List α} {a : α} :
    a ∈ sort.run l ↔ a ∈ l :=
  (sort.perm l).mem_iff

/-- Insertion sort is one such implementation. -/
def StdSort.insertion [LinearOrder β] {lt : α → α → Bool} (key : α → β)
    (keyed : KeyedBy lt key) : StdSort lt where
  run := List.insertionSort fun a b => lt b a = false
  perm := List.perm_insertionSort _
  sorted l := by
    have total : Std.Total fun a b : α => lt b a = false := ⟨fun a b => by
      rw [keyed.not_lt_iff, keyed.not_lt_iff]
      exact le_total _ _⟩
    have trans : IsTrans α fun a b => lt b a = false := ⟨fun a b c left right => by
      rw [keyed.not_lt_iff] at left right ⊢
      exact left.trans right⟩
    exact List.pairwise_insertionSort _ l

/-! ## The largest element -/

/-- `std::max_element`: the first element that no other one exceeds; `none` stands for the end
iterator of an empty range. -/
def maxElement (lt : α → α → Bool) : List α → Option α
  | [] => none
  | a :: l => some (l.foldl (fun largest b => if lt largest b then b else largest) a)

private theorem foldl_largest [LinearOrder β] {lt : α → α → Bool} {key : α → β}
    (keyed : KeyedBy lt key) :
    ∀ (l : List α) (a : α),
      let m := l.foldl (fun largest b => if lt largest b then b else largest) a
      m ∈ a :: l ∧ ∀ b ∈ a :: l, key b ≤ key m
  | [], a => by simp
  | b :: l, a => by
      simp only [List.foldl_cons]
      obtain ⟨mem, top⟩ := foldl_largest keyed l (if lt a b then b else a)
      by_cases less : lt a b = true
      · rw [if_pos less] at mem top ⊢
        have below : key a ≤ key b := ((keyed a b).mp less).le
        refine ⟨List.mem_cons_of_mem _ mem, fun c hc => ?_⟩
        rcases List.mem_cons.mp hc with rfl | hc
        · exact below.trans (top b (by simp))
        · exact top c hc
      · rw [if_neg less] at mem top ⊢
        have below : key b ≤ key a := (keyed.not_lt_iff a b).mp (by simpa using less)
        refine ⟨?_, fun c hc => ?_⟩
        · rcases List.mem_cons.mp mem with eq | mem
          · rw [eq]
            exact List.mem_cons_self
          · simp [mem]
        · rcases List.mem_cons.mp hc with rfl | hc
          · exact top c (by simp)
          · rcases List.mem_cons.mp hc with rfl | hc
            · exact below.trans (top a (by simp))
            · exact top c (by simp [hc])

theorem maxElement_mem [LinearOrder β] {lt : α → α → Bool} {key : α → β}
    (keyed : KeyedBy lt key) {l : List α} {m : α} (found : maxElement lt l = some m) : m ∈ l := by
  cases l with
  | nil => cases found
  | cons a l =>
      cases found
      exact (foldl_largest keyed l a).1

theorem le_maxElement [LinearOrder β] {lt : α → α → Bool} {key : α → β}
    (keyed : KeyedBy lt key) {l : List α} {m : α} (found : maxElement lt l = some m) :
    ∀ b ∈ l, key b ≤ key m := by
  cases l with
  | nil => cases found
  | cons a l =>
      cases found
      exact (foldl_largest keyed l a).2

theorem exists_maxElement (lt : α → α → Bool) {l : List α} (nonempty : l ≠ []) :
    ∃ m, maxElement lt l = some m := by
  cases l with
  | nil => exact (nonempty rfl).elim
  | cons a l => exact ⟨_, rfl⟩

/-- Where the key tells all elements apart, the order of the elements does not matter. -/
theorem maxElement_perm [LinearOrder β] {lt : α → α → Bool} {key : α → β}
    (keyed : KeyedBy lt key) (injective : Function.Injective key) {l l' : List α}
    (perm : l.Perm l') : maxElement lt l = maxElement lt l' := by
  rcases eq_or_ne l' [] with rfl | nonempty
  · rw [perm.eq_nil]
  · have nonemptyToo : l ≠ [] := fun eq => nonempty (by rw [eq] at perm; exact perm.nil_eq.symm)
    obtain ⟨m, found⟩ := exists_maxElement lt nonemptyToo
    obtain ⟨m', found'⟩ := exists_maxElement lt nonempty
    have below := le_maxElement keyed found m' (perm.mem_iff.mpr (maxElement_mem keyed found'))
    have above := le_maxElement keyed found' m (perm.mem_iff.mp (maxElement_mem keyed found))
    rw [found, found', injective (le_antisymm above below)]

end StdAlgorithm
