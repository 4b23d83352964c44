import Mathlib.Data.Prod.Lex
import Mathlib.Data.Finset.Basic
import Mathlib.Data.List.TakeWhile
import GroupComm.Library.StdAlgorithm
import GroupComm.Lab1.Message

/-!
# `HoldBackQueue`

Received messages wait in a deque until their final sequence number is known and nothing that
could still come before them is left in front of them.

* `PendingMsg.lt` is `operator<`: by sequence number, then undeliverable before deliverable,
  then by proposer.
* `addToQueue` and `markDeliverable` are the two operations; `markDeliverable` hands the
  messages it delivers to the callback, here the list `delivered` of its result.
* `mem_front_of_lt`: in the sorted deque, whatever is smaller than a delivered message was
  delivered before it.
-/

namespace GroupComm.Lab1

open StdAlgorithm

structure PendingMsg where
  dataMsg : DataMessage
  finalSeqId : UInt32
  finalSeqProposer : UInt32
  deliverable : Bool := false
  deriving DecidableEq, Repr

namespace PendingMsg

def ident (p : PendingMsg) : MsgIdentifier := p.dataMsg.ident

/-- `PendingMsg::operator<`. -/
def lt (a b : PendingMsg) : Bool :=
  if a.finalSeqId = b.finalSeqId then
    if a.deliverable = b.deliverable then
      -- breaking ties by using the smaller proposer
      decide (a.finalSeqProposer < b.finalSeqProposer)
    else
      b.deliverable
  else
    decide (a.finalSeqId < b.finalSeqId)

/-- What `operator<` compares. -/
def key (p : PendingMsg) : ℕ ×ₗ Bool ×ₗ ℕ :=
  toLex (p.finalSeqId.toNat, toLex (p.deliverable, p.finalSeqProposer.toNat))

theorem keyedBy_key : KeyedBy lt key := by
  intro a b
  rw [key, key, Prod.Lex.lt_iff]
  simp only [ofLex_toLex]
  rw [Prod.Lex.lt_iff]
  simp only [ofLex_toLex, UInt32.toNat_inj]
  unfold lt
  by_cases seq : a.finalSeqId = b.finalSeqId
  · cases ha : a.deliverable <;> cases hb : b.deliverable <;>
      simp [seq, UInt32.lt_iff_toNat_lt]
  · simp [seq, UInt32.lt_iff_toNat_lt]

/-- The comparator looks at the sequence number first. -/
theorem lt_of_finalSeqId_lt {a b : PendingMsg} (less : a.finalSeqId < b.finalSeqId) :
    lt a b = true := by
  have distinct : a.finalSeqId ≠ b.finalSeqId := fun eq => UInt32.lt_irrefl _ (eq ▸ less)
  simp [lt, distinct, less]

/-- An undeliverable message stays in front of a deliverable one with the same number. -/
theorem lt_of_undeliverable {a b : PendingMsg} (le : a.finalSeqId ≤ b.finalSeqId)
    (undeliverable : a.deliverable = false) (deliverable : b.deliverable = true) :
    lt a b = true := by
  by_cases eq : a.finalSeqId = b.finalSeqId
  · simp [lt, eq, undeliverable, deliverable]
  · exact lt_of_finalSeqId_lt (UInt32.lt_iff_le_and_ne.mpr ⟨le, eq⟩)

end PendingMsg

structure HoldBackQueue where
  pendingMsgSet : Finset MsgIdentifier := ∅
  deque : List PendingMsg := []

namespace HoldBackQueue

def addToQueue (q : HoldBackQueue) (dataMsg : DataMessage) (proposedSeq proposer : UInt32) :
    Bool × HoldBackQueue :=
  if dataMsg.ident ∈ q.pendingMsgSet then
    (false, q)
  else
    (true,
      { pendingMsgSet := insert dataMsg.ident q.pendingMsgSet
        deque := q.deque ++ [⟨dataMsg, proposedSeq, proposer, false⟩] })

/-- The search loop of `markDeliverable`: the first entry of the message gets the final
sequence number. -/
def markFirst (seqMsg : SeqMessage) : List PendingMsg → Bool × List PendingMsg
  | [] => (false, [])
  | pending :: rest =>
      if pending.dataMsg.msgId = seqMsg.msgId ∧ pending.dataMsg.sender = seqMsg.sender then
        (true,
          { pending with
            deliverable := true
            finalSeqId := seqMsg.finalSeq
            finalSeqProposer := seqMsg.finalSeqProposer } :: rest)
      else
        let (marked, rest') := markFirst seqMsg rest
        (marked, pending :: rest')

/-- The delivery loop of `markDeliverable`.  Every delivery erases `msgIdentifier` from the
set: the message the call is about, not the one that is delivered. -/
def deliverFront (msgIdentifier : MsgIdentifier) :
    Finset MsgIdentifier → List PendingMsg →
      List DataMessage × Finset MsgIdentifier × List PendingMsg
  | pendingMsgSet, [] => ([], pendingMsgSet, [])
  | pendingMsgSet, it :: rest =>
      if it.deliverable then
        let (delivered, set', rest') :=
          deliverFront msgIdentifier (pendingMsgSet.erase msgIdentifier) rest
        (it.dataMsg :: delivered, set', rest')
      else
        ([], pendingMsgSet, it :: rest)

/-- The effect of `markDeliverable`. -/
structure Marked where
  marked : Bool
  delivered : List DataMessage
  queue : HoldBackQueue

def markDeliverable (sort : StdSort PendingMsg.lt) (q : HoldBackQueue) (seqMsg : SeqMessage) :
    Marked :=
  if seqMsg.ident ∈ q.pendingMsgSet then
    let (marked, deque) := markFirst seqMsg q.deque
    let (delivered, pendingMsgSet, deque) :=
      deliverFront seqMsg.ident q.pendingMsgSet (sort.run deque)
    ⟨marked, delivered, ⟨pendingMsgSet, deque⟩⟩
  else
    ⟨false, [], q⟩

/-! ## The two loops -/

theorem deliverFront_eq (msgIdentifier : MsgIdentifier) (set : Finset MsgIdentifier)
    (l : List PendingMsg) :
    deliverFront msgIdentifier set l =
      ((l.takeWhile (·.deliverable)).map (·.dataMsg),
        if (l.takeWhile (·.deliverable)).isEmpty then set else set.erase msgIdentifier,
        l.dropWhile (·.deliverable)) := by
  induction l generalizing set with
  | nil => rfl
  | cons it rest ih =>
      by_cases deliverable : it.deliverable = true
      · simp only [deliverFront, deliverable, if_true, ih, List.takeWhile_cons, List.dropWhile_cons,
          List.map_cons, List.isEmpty_cons, Bool.false_eq_true, if_false]
        split <;> simp
      · simp [deliverFront, deliverable]

/-- The entry `p` once it is marked by `seqMsg`. -/
def markedBy (seqMsg : SeqMessage) (p : PendingMsg) : PendingMsg :=
  { p with
    deliverable := true
    finalSeqId := seqMsg.finalSeq
    finalSeqProposer := seqMsg.finalSeqProposer }

theorem ident_eq_iff (seqMsg : SeqMessage) (p : PendingMsg) :
    p.ident = seqMsg.ident ↔
      p.dataMsg.msgId = seqMsg.msgId ∧ p.dataMsg.sender = seqMsg.sender := by
  simp [PendingMsg.ident, DataMessage.ident, SeqMessage.ident]

/-- `markFirst` finds nothing, or marks one entry of the message and keeps the others. -/
theorem markFirst_cases (seqMsg : SeqMessage) (l : List PendingMsg) :
    ((∀ p ∈ l, p.ident ≠ seqMsg.ident) ∧ markFirst seqMsg l = (false, l)) ∨
      ∃ before p after, l = before ++ p :: after ∧ p.ident = seqMsg.ident ∧
        (∀ b ∈ before, b.ident ≠ seqMsg.ident) ∧
        markFirst seqMsg l = (true, before ++ markedBy seqMsg p :: after) := by
  induction l with
  | nil => exact Or.inl ⟨by simp, rfl⟩
  | cons p rest ih =>
      by_cases found : p.ident = seqMsg.ident
      · exact Or.inr ⟨[], p, rest, rfl, found, by simp, by
          simp [markFirst, (ident_eq_iff seqMsg p).mp found, markedBy]⟩
      · have skip := mt (ident_eq_iff seqMsg p).mpr found
        rcases ih with ⟨absent, eq⟩ | ⟨before, q, after, split, hq, first, eq⟩
        · refine Or.inl ⟨fun b hb => ?_, by simp only [markFirst, skip, if_false, eq]⟩
          rcases List.mem_cons.mp hb with rfl | hb
          · exact found
          · exact absent b hb
        · refine Or.inr ⟨p :: before, q, after, by rw [split]; rfl, hq, fun b hb => ?_, by
            simp only [markFirst, skip, if_false, eq, List.cons_append]⟩
          rcases List.mem_cons.mp hb with rfl | hb
          · exact found
          · exact first b hb

/-! ## What `markDeliverable` does -/

/-- A call for an identifier outside the set changes nothing. -/
theorem markDeliverable_of_notMem (sort : StdSort PendingMsg.lt) {q : HoldBackQueue}
    {seqMsg : SeqMessage} (absent : seqMsg.ident ∉ q.pendingMsgSet) :
    markDeliverable sort q seqMsg = ⟨false, [], q⟩ := by
  simp [markDeliverable, absent]

/-- The sorted deque in the middle of a call, before the delivery loop. -/
def sortedDeque (sort : StdSort PendingMsg.lt) (q : HoldBackQueue) (seqMsg : SeqMessage) :
    List PendingMsg :=
  sort.run (markFirst seqMsg q.deque).2

theorem markDeliverable_of_mem {sort : StdSort PendingMsg.lt} {q : HoldBackQueue}
    {seqMsg : SeqMessage} (pending : seqMsg.ident ∈ q.pendingMsgSet) :
    markDeliverable sort q seqMsg =
      ⟨(markFirst seqMsg q.deque).1,
        ((sortedDeque sort q seqMsg).takeWhile (·.deliverable)).map (·.dataMsg),
        ⟨if ((sortedDeque sort q seqMsg).takeWhile (·.deliverable)).isEmpty then q.pendingMsgSet
          else q.pendingMsgSet.erase seqMsg.ident,
          (sortedDeque sort q seqMsg).dropWhile (·.deliverable)⟩⟩ := by
  rw [markDeliverable, if_pos pending]
  simp only [deliverFront_eq]
  rfl

/-- An entry of the sorted deque was in the deque already, or is the marked one. -/
theorem mem_sortedDeque {sort : StdSort PendingMsg.lt} {q : HoldBackQueue} {seqMsg : SeqMessage}
    {e : PendingMsg} (mem : e ∈ sortedDeque sort q seqMsg) :
    e ∈ q.deque ∨ ∃ p ∈ q.deque, p.ident = seqMsg.ident ∧ e = markedBy seqMsg p := by
  rw [sortedDeque, sort.mem_run] at mem
  rcases markFirst_cases seqMsg q.deque with ⟨_, eq⟩ | ⟨before, p, after, split, hp, _, eq⟩
  · rw [eq] at mem
    exact Or.inl mem
  · rw [eq] at mem
    rcases List.mem_append.mp mem with hb | hc
    · exact Or.inl (by simp [split, hb])
    · rcases List.mem_cons.mp hc with rfl | ha
      · exact Or.inr ⟨p, by simp [split], hp, rfl⟩
      · exact Or.inl (by simp [split, ha])

/-- Entries of other messages stay as they are. -/
theorem mem_sortedDeque_of_ne {sort : StdSort PendingMsg.lt} {q : HoldBackQueue}
    {seqMsg : SeqMessage} {e : PendingMsg} (mem : e ∈ q.deque) (other : e.ident ≠ seqMsg.ident) :
    e ∈ sortedDeque sort q seqMsg := by
  rw [sortedDeque, sort.mem_run]
  rcases markFirst_cases seqMsg q.deque with ⟨_, eq⟩ | ⟨before, p, after, split, hp, _, eq⟩
  · rw [eq]
    exact mem
  · rw [eq]
    rw [split] at mem
    rcases List.mem_append.mp mem with hb | hc
    · simp [hb]
    · rcases List.mem_cons.mp hc with rfl | ha
      · exact (other hp).elim
      · simp [ha]

/-- The identifiers in the deque stay what they were. -/
theorem map_ident_sortedDeque (sort : StdSort PendingMsg.lt) (q : HoldBackQueue)
    (seqMsg : SeqMessage) :
    ((sortedDeque sort q seqMsg).map (·.ident)).Perm (q.deque.map (·.ident)) := by
  refine ((sort.perm _).map _).trans ?_
  rcases markFirst_cases seqMsg q.deque with ⟨_, eq⟩ | ⟨before, p, after, split, _, _, eq⟩
  · rw [eq]
  · rw [eq, split]
    simp [markedBy, PendingMsg.ident]

/-- A deliverable entry is still deliverable in the sorted deque, possibly marked again. -/
theorem deliverable_sortedDeque (sort : StdSort PendingMsg.lt) {q : HoldBackQueue}
    (seqMsg : SeqMessage) {e : PendingMsg} (mem : e ∈ q.deque) (deliverable : e.deliverable = true) :
    ∃ e' ∈ sortedDeque sort q seqMsg, e'.ident = e.ident ∧ e'.deliverable = true := by
  by_cases same : e.ident = seqMsg.ident
  · rcases markFirst_cases seqMsg q.deque with ⟨absent, _⟩ | ⟨before, p, after, split, hp, _, eq⟩
    · exact (absent e mem same).elim
    · refine ⟨markedBy seqMsg p, ?_, hp.trans same.symm, rfl⟩
      rw [sortedDeque, sort.mem_run, eq]
      simp
  · exact ⟨e, mem_sortedDeque_of_ne mem same, rfl, deliverable⟩

/-- An entry is deliverable in the sorted deque because it was, or because it was marked. -/
theorem settled_of_sortedDeque {sort : StdSort PendingMsg.lt} {q : HoldBackQueue}
    {seqMsg : SeqMessage} {e : PendingMsg} (mem : e ∈ sortedDeque sort q seqMsg)
    (deliverable : e.deliverable = true) :
    (∃ e' ∈ q.deque, e'.ident = e.ident ∧ e'.deliverable = true) ∨
      e.ident = seqMsg.ident ∧ (markFirst seqMsg q.deque).1 = true := by
  rcases mem_sortedDeque mem with old | ⟨p, hp, same, rfl⟩
  · exact Or.inl ⟨e, old, rfl, deliverable⟩
  · refine Or.inr ⟨same, ?_⟩
    rcases markFirst_cases seqMsg q.deque with ⟨absent, _⟩ | ⟨_, _, _, _, _, _, eq⟩
    · exact (absent p hp same).elim
    · rw [eq]

/-- An entry of the message makes the call mark one. -/
theorem marked_of_mem (sort : StdSort PendingMsg.lt) {q : HoldBackQueue} {seqMsg : SeqMessage}
    {p : PendingMsg} (mem : p ∈ q.deque) (same : p.ident = seqMsg.ident) :
    (markFirst seqMsg q.deque).1 = true ∧
      ∃ e ∈ sortedDeque sort q seqMsg, e.ident = seqMsg.ident ∧ e.deliverable = true := by
  rcases markFirst_cases seqMsg q.deque with ⟨absent, _⟩ | ⟨before, p', after, split, hp, _, eq⟩
  · exact (absent p mem same).elim
  · refine ⟨by rw [eq], markedBy seqMsg p', ?_, hp, rfl⟩
    rw [sortedDeque, sort.mem_run, eq]
    simp

/-! ## The order of delivery -/

/-- The deque splits at a delivered entry; what is smaller than it was delivered before. -/
theorem mem_front_of_lt {sort : StdSort PendingMsg.lt} {q : HoldBackQueue} {seqMsg : SeqMessage}
    {front back : List PendingMsg} {x e : PendingMsg}
    (split : sortedDeque sort q seqMsg = front ++ x :: back)
    (mem : e ∈ sortedDeque sort q seqMsg) (less : PendingMsg.lt e x = true) : e ∈ front := by
  have sorted := sort.sorted (markFirst seqMsg q.deque).2
  rw [← sortedDeque, split, List.pairwise_append, List.pairwise_cons] at sorted
  rw [split] at mem
  rcases List.mem_append.mp mem with hf | hc
  · exact hf
  · rcases List.mem_cons.mp hc with rfl | hb
    · exact (lt_irrefl _ ((PendingMsg.keyedBy_key e e).mp less)).elim
    · have notLess := sorted.2.1.1 e hb
      rw [less] at notLess
      cases notLess

/-- After a call that looked at the deque, its front is undeliverable. -/
theorem front_undeliverable {sort : StdSort PendingMsg.lt} {q : HoldBackQueue}
    {seqMsg : SeqMessage} {e : PendingMsg} {rest : List PendingMsg}
    (eq : (sortedDeque sort q seqMsg).dropWhile (·.deliverable) = e :: rest) :
    e.deliverable = false := by
  have head := List.head?_dropWhile_not (fun p : PendingMsg => p.deliverable)
    (sortedDeque sort q seqMsg)
  rw [eq] at head
  simpa using head

end HoldBackQueue

end GroupComm.Lab1
