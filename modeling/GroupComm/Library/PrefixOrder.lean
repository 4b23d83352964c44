import Mathlib.Data.List.Dedup
import Mathlib.Data.List.Induction
import Mathlib.Order.Basic

/-!
# Lists cut from one common order

Processes that deliver in one global order, each without skipping anything, agree: what one
of them has delivered is a prefix of what the other one has.  Here `r a b` says that `a`
comes before `b` in that order.

* `firstOccurrences l` keeps the first copy of each element of `l`, in order.
* `Gapless r l`: whatever comes before an element of `l` stands before it in `l`.
* `Gapless.comparable`: the first occurrences in two gapless lists are prefixes of one
  another when `r` is asymmetric and compares their elements.
-/

namespace PrefixOrder

variable {α : Type*} {r : α → α → Prop}

/-! ## First occurrences -/

section FirstOccurrences

variable [DecidableEq α]

/-- The first copy of each element, in the order of the list. -/
def firstOccurrences (l : List α) : List α := l.reverse.dedup.reverse

@[simp] theorem firstOccurrences_nil : firstOccurrences ([] : List α) = [] := rfl

@[simp] theorem mem_firstOccurrences {a : α} {l : List α} : a ∈ firstOccurrences l ↔ a ∈ l := by
  simp [firstOccurrences]

theorem firstOccurrences_append_of_mem {a : α} {l : List α} (old : a ∈ l) :
    firstOccurrences (l ++ [a]) = firstOccurrences l := by
  simp [firstOccurrences, List.dedup_cons_of_mem (List.mem_reverse.mpr old)]

theorem firstOccurrences_append_of_notMem {a : α} {l : List α} (new : a ∉ l) :
    firstOccurrences (l ++ [a]) = firstOccurrences l ++ [a] := by
  simp [firstOccurrences, List.dedup_cons_of_notMem (mt List.mem_reverse.mp new)]

end FirstOccurrences

/-! ## Gapless lists -/

/-- Whatever comes before an element of the list stands before it in the list. -/
def Gapless (r : α → α → Prop) (l : List α) : Prop :=
  ∀ front a back, l = front ++ a :: back → ∀ b, r b a → b ∈ front

theorem gapless_nil : Gapless r [] := fun front a back split => by
  simp at split

theorem Gapless.of_append {l l' : List α} (gapless : Gapless r (l ++ l')) : Gapless r l :=
  fun front a back split =>
    gapless front a (back ++ l') (by rw [split, List.append_assoc, List.cons_append])

/-- A list is extended by elements whose predecessors are in place already. -/
theorem Gapless.append {l l' : List α} (gapless : Gapless r l)
    (new : ∀ front a back, l' = front ++ a :: back → ∀ b, r b a → b ∈ l ++ front) :
    Gapless r (l ++ l') := by
  intro front a back split b below
  rcases List.append_eq_append_iff.mp split with ⟨more, rfl, rest⟩ | ⟨more, old, rest⟩
  · exact new more a back rest b below
  · cases more with
    | nil =>
        rw [List.append_nil] at old
        subst old
        simpa using new [] a back (by simpa using rest.symm) b below
    | cons c more =>
        rw [List.cons_append, List.cons.injEq] at rest
        obtain ⟨rfl, _⟩ := rest
        exact gapless front a more old b below

/-- The relation may grow as long as nothing new comes before an element of the list. -/
theorem Gapless.mono {r' : α → α → Prop} {l : List α} (gapless : Gapless r l)
    (same : ∀ a ∈ l, ∀ b, r' b a → r b a) : Gapless r' l :=
  fun front a back split b below =>
    gapless front a back split b (same a (by rw [split]; simp) b below)

theorem Gapless.mem_of_mem {l : List α} (gapless : Gapless r l) {a b : α} (mem : a ∈ l)
    (below : r b a) : b ∈ l := by
  obtain ⟨front, back, split⟩ := List.append_of_mem mem
  rw [split]
  exact List.mem_append_left _ (gapless front a back split b below)

/-- The first occurrences in a gapless list are in order. -/
theorem Gapless.pairwise [DecidableEq α] {l : List α} (gapless : Gapless r l)
    (compare : ∀ a ∈ l, ∀ b ∈ l, r a b ∨ a = b ∨ r b a) :
    (firstOccurrences l).Pairwise r := by
  induction l using List.reverseRecOn with
  | nil => exact .nil
  | append_singleton l a ih =>
      have smaller : (firstOccurrences l).Pairwise r :=
        ih gapless.of_append fun b hb c hc => compare b (by simp [hb]) c (by simp [hc])
      by_cases old : a ∈ l
      · rwa [firstOccurrences_append_of_mem old]
      · rw [firstOccurrences_append_of_notMem old, List.pairwise_append]
        refine ⟨smaller, List.pairwise_singleton _ _, fun b hb c hc => ?_⟩
        rw [List.mem_singleton] at hc
        rw [mem_firstOccurrences] at hb
        subst hc
        rcases compare b (by simp [hb]) c (by simp) with below | rfl | above
        · exact below
        · exact (old hb).elim
        · exact (old (gapless.of_append.mem_of_mem hb above)).elim

/-- Two lists in order that are downward closed in one another are prefixes. -/
theorem comparable_of_pairwise (asymm : ∀ a b, r a b → ¬ r b a) :
    ∀ {l₁ l₂ : List α}, l₁.Pairwise r → l₂.Pairwise r →
      (∀ a ∈ l₁, ∀ b ∈ l₂, r b a → b ∈ l₁) → (∀ a ∈ l₂, ∀ b ∈ l₁, r b a → b ∈ l₂) →
      (∀ a ∈ l₁, ∀ b ∈ l₂, r a b ∨ a = b ∨ r b a) →
      l₁ <+: l₂ ∨ l₂ <+: l₁
  | [], l₂, _, _, _, _, _ => Or.inl List.nil_prefix
  | l₁, [], _, _, _, _, _ => Or.inr List.nil_prefix
  | a :: l₁, b :: l₂, up₁, up₂, closed₁, closed₂, compare => by
      obtain ⟨above₁, tail₁⟩ := List.pairwise_cons.mp up₁
      obtain ⟨above₂, tail₂⟩ := List.pairwise_cons.mp up₂
      have heads : a = b := by
        rcases compare a (by simp) b (by simp) with lt | eq | gt
        · rcases List.mem_cons.mp (closed₂ b (by simp) a (by simp) lt) with eq | later
          · exact eq
          · exact (asymm _ _ lt (above₂ a later)).elim
        · exact eq
        · rcases List.mem_cons.mp (closed₁ a (by simp) b (by simp) gt) with eq | later
          · exact eq.symm
          · exact (asymm _ _ gt (above₁ b later)).elim
      subst heads
      -- what a tail lacks is the shared head, which comes before every element of the tails
      have closed₁' : ∀ x ∈ l₁, ∀ y ∈ l₂, r y x → y ∈ l₁ := by
        intro x hx y hy lt
        rcases List.mem_cons.mp (closed₁ x (by simp [hx]) y (by simp [hy]) lt) with rfl | later
        · exact (asymm _ _ (above₂ _ hy) (above₂ _ hy)).elim
        · exact later
      have closed₂' : ∀ x ∈ l₂, ∀ y ∈ l₁, r y x → y ∈ l₂ := by
        intro x hx y hy lt
        rcases List.mem_cons.mp (closed₂ x (by simp [hx]) y (by simp [hy]) lt) with rfl | later
        · exact (asymm _ _ (above₁ _ hy) (above₁ _ hy)).elim
        · exact later
      have tails := comparable_of_pairwise asymm tail₁ tail₂ closed₁' closed₂'
        fun x hx y hy => compare x (by simp [hx]) y (by simp [hy])
      exact tails.imp (fun h => List.cons_prefix_cons.mpr ⟨rfl, h⟩)
        fun h => List.cons_prefix_cons.mpr ⟨rfl, h⟩

/-- **Agreement.**  The first occurrences in two gapless lists are prefixes of one another. -/
theorem Gapless.comparable [DecidableEq α] {l₁ l₂ : List α}
    (asymm : ∀ a b, r a b → ¬ r b a) (gapless₁ : Gapless r l₁) (gapless₂ : Gapless r l₂)
    (compare : ∀ a ∈ l₁ ++ l₂, ∀ b ∈ l₁ ++ l₂, r a b ∨ a = b ∨ r b a) :
    firstOccurrences l₁ <+: firstOccurrences l₂ ∨ firstOccurrences l₂ <+: firstOccurrences l₁ := by
  refine comparable_of_pairwise asymm
    (gapless₁.pairwise fun a ha b hb => compare a (by simp [ha]) b (by simp [hb]))
    (gapless₂.pairwise fun a ha b hb => compare a (by simp [ha]) b (by simp [hb])) ?_ ?_ ?_
  · simp only [mem_firstOccurrences]
    exact fun a ha b _ below => gapless₁.mem_of_mem ha below
  · simp only [mem_firstOccurrences]
    exact fun a ha b _ below => gapless₂.mem_of_mem ha below
  · simp only [mem_firstOccurrences]
    exact fun a ha b hb => compare a (by simp [ha]) b (by simp [hb])

end PrefixOrder
