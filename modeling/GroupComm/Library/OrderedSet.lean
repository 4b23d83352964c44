import Mathlib.Data.List.Nodup
import Mathlib.Order.Lattice

/-!
# `std::set`

A set that is iterated in ascending order: its elements as a strictly increasing list.  Two
sets with the same elements are equal (`OrderedSet.ext`), the first element is the smallest
one (`OrderedSet.le_of_head`), and what an interrupted iteration has reached is downward
closed (`OrderedSet.mem_take_of_lt`).
-/

/-- A set with the order of iteration of `std::set`. -/
structure OrderedSet (α : Type*) [LinearOrder α] where
  toList : List α
  sorted : toList.Pairwise (· < ·)

namespace OrderedSet

variable {α : Type*} [LinearOrder α]

instance : DecidableEq (OrderedSet α) := fun s t =>
  decidable_of_iff (s.toList = t.toList) ⟨fun h => by
    cases s
    cases t
    cases h
    rfl, fun h => congrArg toList h⟩

instance : Membership α (OrderedSet α) := ⟨fun s a => a ∈ s.toList⟩

instance (a : α) (s : OrderedSet α) : Decidable (a ∈ s) :=
  inferInstanceAs (Decidable (a ∈ s.toList))

instance : EmptyCollection (OrderedSet α) := ⟨⟨[], .nil⟩⟩

@[simp] theorem mem_toList {a : α} {s : OrderedSet α} : a ∈ s.toList ↔ a ∈ s := Iff.rfl

@[simp] theorem toList_empty : (∅ : OrderedSet α).toList = [] := rfl

@[simp] theorem notMem_empty (a : α) : a ∉ (∅ : OrderedSet α) := List.not_mem_nil

theorem nodup (s : OrderedSet α) : s.toList.Nodup :=
  s.sorted.imp fun less => ne_of_lt less

/-- A set is determined by its elements. -/
theorem ext {s t : OrderedSet α} (same : ∀ a, a ∈ s ↔ a ∈ t) : s = t := by
  obtain ⟨l, sorted⟩ := s
  obtain ⟨l', sorted'⟩ := t
  have perm : l.Perm l' := (List.perm_ext_iff_of_nodup (sorted.imp fun less => ne_of_lt less)
    (sorted'.imp fun less => ne_of_lt less)).mpr same
  have eq : l = l' := perm.eq_of_pairwise
    (fun a b _ _ less more => (lt_asymm less more).elim) sorted sorted'
  subst eq
  rfl

/-! ## Insertion -/

/-- The list with `a` at its place. -/
def insertList (a : α) : List α → List α
  | [] => [a]
  | b :: l => if a < b then a :: b :: l else if a = b then b :: l else b :: insertList a l

theorem mem_insertList {a b : α} {l : List α} : b ∈ insertList a l ↔ b = a ∨ b ∈ l := by
  induction l with
  | nil => simp [insertList]
  | cons c l ih =>
      unfold insertList
      split
      · simp
      · split
        · rename_i eq
          subst eq
          simp
        · simp only [List.mem_cons, ih]
          tauto

theorem pairwise_insertList {a : α} {l : List α} (sorted : l.Pairwise (· < ·)) :
    (insertList a l).Pairwise (· < ·) := by
  induction l with
  | nil => simp [insertList]
  | cons c l ih =>
      obtain ⟨above, tail⟩ := List.pairwise_cons.mp sorted
      unfold insertList
      split
      · rename_i less
        refine List.pairwise_cons.mpr ⟨fun b hb => ?_, sorted⟩
        rcases List.mem_cons.mp hb with rfl | hb
        · exact less
        · exact less.trans (above b hb)
      · rename_i notLess
        split
        · exact sorted
        · rename_i apart
          refine List.pairwise_cons.mpr ⟨fun b hb => ?_, ih tail⟩
          rcases mem_insertList.mp hb with rfl | hb
          · exact lt_of_le_of_ne (not_lt.mp notLess) (Ne.symm apart)
          · exact above b hb

/-- `insert`. -/
def insert (s : OrderedSet α) (a : α) : OrderedSet α :=
  ⟨insertList a s.toList, pairwise_insertList s.sorted⟩

@[simp] theorem mem_insert {s : OrderedSet α} {a b : α} : b ∈ s.insert a ↔ b = a ∨ b ∈ s :=
  mem_insertList

/-- The set of the elements of a list. -/
def ofList (l : List α) : OrderedSet α := l.foldl insert ∅

theorem mem_foldl_insert {l : List α} {s : OrderedSet α} {a : α} :
    a ∈ l.foldl insert s ↔ a ∈ s ∨ a ∈ l := by
  induction l generalizing s with
  | nil => simp
  | cons b l ih =>
      rw [List.foldl_cons, ih, mem_insert, List.mem_cons]
      tauto

@[simp] theorem mem_ofList {l : List α} {a : α} : a ∈ ofList l ↔ a ∈ l := by
  simp [ofList, mem_foldl_insert]

theorem ofList_toList (s : OrderedSet α) : ofList s.toList = s :=
  ext fun a => by rw [mem_ofList, mem_toList]

/-! ## Removal -/

/-- The elements that satisfy `p`. -/
def filter (p : α → Bool) (s : OrderedSet α) : OrderedSet α :=
  ⟨s.toList.filter p, s.sorted.filter p⟩

@[simp] theorem mem_filter {p : α → Bool} {s : OrderedSet α} {a : α} :
    a ∈ s.filter p ↔ a ∈ s ∧ p a = true :=
  List.mem_filter

/-- `erase`. -/
def erase (s : OrderedSet α) (a : α) : OrderedSet α :=
  s.filter fun b => decide (b ≠ a)

@[simp] theorem mem_erase {s : OrderedSet α} {a b : α} : b ∈ s.erase a ↔ b ∈ s ∧ b ≠ a := by
  simp [erase]

theorem erase_of_notMem {s : OrderedSet α} {a : α} (absent : a ∉ s) : s.erase a = s :=
  ext fun b => by
    rw [mem_erase]
    exact ⟨And.left, fun mem => ⟨mem, fun eq => absent (eq ▸ mem)⟩⟩

theorem insert_erase {s : OrderedSet α} {a : α} (mem : a ∈ s) : (s.erase a).insert a = s :=
  ext fun b => by
    rw [mem_insert, mem_erase]
    by_cases same : b = a
    · subst same
      simp [mem]
    · simp [same]

/-! ## Order of iteration -/

/-- The first element is the smallest. -/
theorem le_of_head {s : OrderedSet α} {a : α} (head : s.toList.head? = some a) :
    a ∈ s ∧ ∀ b ∈ s, a ≤ b := by
  obtain ⟨l, sorted⟩ := s
  cases l with
  | nil => cases head
  | cons c l =>
      cases head
      refine ⟨List.mem_cons_self, fun b hb => ?_⟩
      rcases List.mem_cons.mp hb with rfl | hb
      · exact le_refl _
      · exact ((List.pairwise_cons.mp sorted).1 b hb).le

theorem head_eq_iff {s : OrderedSet α} {a : α} :
    s.toList.head? = some a ↔ a ∈ s ∧ ∀ b ∈ s, a ≤ b := by
  refine ⟨le_of_head, fun ⟨mem, least⟩ => ?_⟩
  obtain ⟨b, head⟩ := Option.isSome_iff_exists.mp
    (List.isSome_head?.mpr (List.ne_nil_of_mem (mem_toList.mpr mem)))
  obtain ⟨memB, leastB⟩ := le_of_head head
  rw [head, le_antisymm (leastB a mem) (least b memB)]

/-- An iteration that has reached an element has reached the smaller ones. -/
theorem mem_take_of_lt {s : OrderedSet α} {n : ℕ} {a b : α} (reached : b ∈ s.toList.take n)
    (mem : a ∈ s) (less : a < b) : a ∈ s.toList.take n := by
  have split := List.take_append_drop n s.toList
  have sorted := s.sorted
  rw [← split, List.pairwise_append] at sorted
  rw [← mem_toList, ← split, List.mem_append] at mem
  rcases mem with before | after
  · exact before
  · exact (lt_asymm less (sorted.2.2 b reached a after)).elim

end OrderedSet
