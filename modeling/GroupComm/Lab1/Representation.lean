import GroupComm.Library.Transition
import GroupComm.Lab1.HoldBackQueue

/-!
# The representation of the hold-back queue

`pendingMsgSet` should hold the identifiers of the messages in the deque, and the deque one
entry for each of them.  The delivery loop of `markDeliverable` erases the identifier that the
call is about once for every message it delivers, so the two come apart as soon as a call
delivers another message.

* `ReleasesOther` says when that happens, of the queue before the call.
* `represented_iff`: after every call of a sequence the queue is well represented exactly when
  no call of it releases another message.
-/

namespace GroupComm.Lab1

open Transition StdAlgorithm

namespace HoldBackQueue

/-- A call of one of the two operations. -/
inductive Call where
  | addToQueue (dataMsg : DataMessage) (proposedSeq proposer : UInt32)
  | markDeliverable (seqMsg : SeqMessage)

/-- The identifiers of the messages in the deque. -/
def idents (q : HoldBackQueue) : List MsgIdentifier :=
  q.deque.map (·.ident)

/-- The deque has one entry for each identifier in `pendingMsgSet`, and no other. -/
structure Represented (q : HoldBackQueue) : Prop where
  nodup : q.idents.Nodup
  pending : ∀ id, id ∈ q.pendingMsgSet ↔ id ∈ q.idents

/-- What a call delivers. -/
def deliveredBy (sort : StdSort PendingMsg.lt) (q : HoldBackQueue) : Call → List DataMessage
  | .addToQueue _ _ _ => []
  | .markDeliverable seqMsg => (q.markDeliverable sort seqMsg).delivered

/-- The queue that a call leaves. -/
def after (sort : StdSort PendingMsg.lt) (q : HoldBackQueue) : Call → HoldBackQueue
  | .addToQueue dataMsg proposedSeq proposer => (q.addToQueue dataMsg proposedSeq proposer).2
  | .markDeliverable seqMsg => (q.markDeliverable sort seqMsg).queue

/-- A run of the queue is a sequence of calls. -/
def call (sort : StdSort PendingMsg.lt) (q : HoldBackQueue) (c : Call) : Option HoldBackQueue :=
  some (q.after sort c)

/-- The queue is well represented after a call, and what the call has delivered is gone. -/
structure RepresentedAfter (sort : StdSort PendingMsg.lt) (q : HoldBackQueue) (c : Call) :
    Prop where
  represented : (q.after sort c).Represented
  delivered : ∀ m ∈ q.deliveredBy sort c,
    m.ident ∉ (q.after sort c).pendingMsgSet ∧ m.ident ∉ (q.after sort c).idents

/-- Another message has its final number, and nothing but the marked message is in its way. -/
def ReleasesOther (q : HoldBackQueue) (seqMsg : SeqMessage) : Prop :=
  seqMsg.ident ∈ q.pendingMsgSet ∧
    ∃ e ∈ q.deque, (e.ident ≠ seqMsg.ident ∧ e.deliverable = true) ∧
      ∀ u ∈ q.deque, u.ident ≠ seqMsg.ident → u.deliverable = false →
        e.finalSeqId < u.finalSeqId

instance (q : HoldBackQueue) (seqMsg : SeqMessage) : Decidable (q.ReleasesOther seqMsg) :=
  inferInstanceAs (Decidable (_ ∧ _))

/-- A call releases no message but the one it marks. -/
def ReleasesAlone (q : HoldBackQueue) : Call → Prop
  | .addToQueue _ _ _ => True
  | .markDeliverable seqMsg => ¬ q.ReleasesOther seqMsg

instance (q : HoldBackQueue) : ∀ c, Decidable (q.ReleasesAlone c)
  | .addToQueue _ _ _ => .isTrue trivial
  | .markDeliverable _ => inferInstanceAs (Decidable (¬ _))

theorem Represented.empty : Represented {} :=
  ⟨.nil, by simp [idents]⟩

/-! ## Adding -/

theorem Represented.addToQueue {q : HoldBackQueue} (h : q.Represented) (dataMsg : DataMessage)
    (proposedSeq proposer : UInt32) :
    (q.addToQueue dataMsg proposedSeq proposer).2.Represented := by
  unfold HoldBackQueue.addToQueue
  split
  · exact h
  · rename_i new
    have absent : dataMsg.ident ∉ q.idents := fun mem => new ((h.pending _).mpr mem)
    constructor
    · show (List.map _ (q.deque ++ _)).Nodup
      rw [List.map_append, List.nodup_append]
      refine ⟨h.nodup, List.nodup_singleton _, fun id mem id' mem' => ?_⟩
      rintro rfl
      rw [List.map_singleton, List.mem_singleton] at mem'
      subst mem'
      exact absent mem
    · intro id
      show id ∈ insert dataMsg.ident q.pendingMsgSet ↔ id ∈ List.map _ (q.deque ++ _)
      rw [Finset.mem_insert, h.pending, List.map_append, List.mem_append, List.map_singleton,
        List.mem_singleton]
      exact Or.comm

/-! ## The batch that a call delivers -/

section Batch

variable {sort : StdSort PendingMsg.lt} {q : HoldBackQueue} {seqMsg : SeqMessage}

/-- The entries that the delivery loop takes off the sorted deque. -/
def batch (sort : StdSort PendingMsg.lt) (q : HoldBackQueue) (seqMsg : SeqMessage) :
    List PendingMsg :=
  (sortedDeque sort q seqMsg).takeWhile (·.deliverable)

/-- An entry is delivered when nothing that stands before it is undeliverable. -/
theorem mem_batch_iff {e : PendingMsg} : e ∈ batch sort q seqMsg ↔
    e ∈ sortedDeque sort q seqMsg ∧ e.deliverable = true ∧
      ∀ u ∈ sortedDeque sort q seqMsg, u.deliverable = false → e.finalSeqId < u.finalSeqId := by
  constructor
  · intro mem
    have deliverable : e.deliverable = true := List.mem_takeWhile_imp mem
    refine ⟨(List.takeWhile_prefix _).subset mem, deliverable, fun u hu undeliverable => ?_⟩
    obtain ⟨front, back, split⟩ := List.append_of_mem mem
    have whole : sortedDeque sort q seqMsg =
        front ++ e :: (back ++ (sortedDeque sort q seqMsg).dropWhile (·.deliverable)) := by
      conv_lhs => rw [← List.takeWhile_append_dropWhile (p := (·.deliverable))
        (l := sortedDeque sort q seqMsg)]
      rw [← batch, split, List.append_assoc, List.cons_append]
    by_contra notLess
    have before := mem_front_of_lt whole hu
      (PendingMsg.lt_of_undeliverable (UInt32.not_lt.mp notLess) undeliverable deliverable)
    have inBatch : u ∈ batch sort q seqMsg := by
      rw [split]
      exact List.mem_append_left _ before
    have out : u.deliverable = true := List.mem_takeWhile_imp inBatch
    rw [undeliverable] at out
    cases out
  · rintro ⟨mem, deliverable, first⟩
    obtain ⟨front, back, split⟩ := List.append_of_mem mem
    have sorted := sort.sorted (markFirst seqMsg q.deque).2
    rw [← sortedDeque, split, List.pairwise_append] at sorted
    have allFront : ∀ u ∈ front, u.deliverable = true := by
      intro u hu
      by_contra notDeliverable
      rw [Bool.not_eq_true] at notDeliverable
      have less := PendingMsg.lt_of_finalSeqId_lt
        (first u (by rw [split]; exact List.mem_append_left _ hu) notDeliverable)
      have notLess := sorted.2.2 u hu e List.mem_cons_self
      rw [less] at notLess
      cases notLess
    rw [batch, split, List.takeWhile_append_of_pos allFront, List.takeWhile_cons, if_pos deliverable]
    exact List.mem_append_right _ List.mem_cons_self

theorem nodup_sortedDeque (h : q.Represented) :
    ((sortedDeque sort q seqMsg).map (·.ident)).Nodup :=
  (map_ident_sortedDeque sort q seqMsg).nodup_iff.mpr h.nodup

/-- While the marked message is pending, the undeliverable entries are those of the other
messages. -/
theorem Represented.undeliverable_iff (h : q.Represented) (pending : seqMsg.ident ∈ q.pendingMsgSet)
    {u : PendingMsg} : u ∈ sortedDeque sort q seqMsg ∧ u.deliverable = false ↔
      u ∈ q.deque ∧ u.ident ≠ seqMsg.ident ∧ u.deliverable = false := by
  constructor
  · rintro ⟨mem, undeliverable⟩
    obtain ⟨p, hp, same⟩ := List.mem_map.mp ((h.pending _).mp pending)
    obtain ⟨_, e, he, sameE, deliverable⟩ := marked_of_mem sort hp same
    have other : u.ident ≠ seqMsg.ident := by
      intro sameU
      have equal := List.inj_on_of_nodup_map (nodup_sortedDeque h) mem he (sameU.trans sameE.symm)
      rw [equal, deliverable] at undeliverable
      cases undeliverable
    rcases mem_sortedDeque mem with old | ⟨_, _, sameP, rfl⟩
    · exact ⟨old, other, undeliverable⟩
    · exact (other sameP).elim
  · rintro ⟨mem, other, undeliverable⟩
    exact ⟨mem_sortedDeque_of_ne mem other, undeliverable⟩

/-- **Another message is released** exactly when the batch has an entry of another message. -/
theorem Represented.releasesOther_iff (sort : StdSort PendingMsg.lt) (h : q.Represented)
    (pending : seqMsg.ident ∈ q.pendingMsgSet) :
    q.ReleasesOther seqMsg ↔ ∃ e ∈ batch sort q seqMsg, e.ident ≠ seqMsg.ident := by
  constructor
  · rintro ⟨_, e, mem, ⟨other, deliverable⟩, first⟩
    refine ⟨e, mem_batch_iff.mpr ⟨mem_sortedDeque_of_ne mem other, deliverable, ?_⟩, other⟩
    intro u hu undeliverable
    obtain ⟨old, otherU, _⟩ := (h.undeliverable_iff pending).mp ⟨hu, undeliverable⟩
    exact first u old otherU undeliverable
  · rintro ⟨e, mem, other⟩
    obtain ⟨sorted, deliverable, first⟩ := mem_batch_iff.mp mem
    refine ⟨pending, e, ?_, ⟨other, deliverable⟩, ?_⟩
    · rcases mem_sortedDeque sorted with old | ⟨_, _, sameP, rfl⟩
      · exact old
      · exact (other sameP).elim
    · intro u hu otherU undeliverable
      exact first u (mem_sortedDeque_of_ne hu otherU) undeliverable

end Batch

/-! ## Marking -/

section Mark

variable {sort : StdSort PendingMsg.lt} {q : HoldBackQueue} {seqMsg : SeqMessage}

theorem pendingMsgSet_markDeliverable (pending : seqMsg.ident ∈ q.pendingMsgSet) :
    (q.markDeliverable sort seqMsg).queue.pendingMsgSet =
      if batch sort q seqMsg = [] then q.pendingMsgSet
      else q.pendingMsgSet.erase seqMsg.ident := by
  rw [markDeliverable_of_mem pending]
  unfold batch
  split_ifs with empty notNil isNil
  · rfl
  · exact (notNil (List.isEmpty_iff.mp empty)).elim
  · exact (empty (List.isEmpty_iff.mpr isNil)).elim
  · rfl

/-- The batch and what is left in the deque are the messages that were there. -/
theorem idents_markDeliverable (sort : StdSort PendingMsg.lt)
    (pending : seqMsg.ident ∈ q.pendingMsgSet) :
    ((batch sort q seqMsg).map (·.ident) ++ (q.markDeliverable sort seqMsg).queue.idents).Perm
      q.idents := by
  rw [markDeliverable_of_mem pending, idents, ← List.map_append, batch,
    List.takeWhile_append_dropWhile]
  exact map_ident_sortedDeque sort q seqMsg

/-- A batch without other messages takes the marked message out of both. -/
theorem Represented.markDeliverable (h : q.Represented) (pending : seqMsg.ident ∈ q.pendingMsgSet)
    (alone : ∀ e ∈ batch sort q seqMsg, e.ident = seqMsg.ident) :
    RepresentedAfter sort q (.markDeliverable seqMsg) := by
  have perm := idents_markDeliverable sort pending
  have nodup := perm.nodup_iff.mpr h.nodup
  rw [List.nodup_append] at nodup
  obtain ⟨_, rest, apart⟩ := nodup
  have members : ∀ id, id ∈ (q.markDeliverable sort seqMsg).queue.pendingMsgSet ↔
      id ∈ (q.markDeliverable sort seqMsg).queue.idents := by
    intro id
    have split := perm.mem_iff (a := id)
    rw [List.mem_append, ← h.pending] at split
    rw [pendingMsgSet_markDeliverable pending]
    split_ifs with empty
    · rw [empty] at split
      simpa using split.symm
    · obtain ⟨e, mem⟩ := List.exists_mem_of_ne_nil _ empty
      have gone : seqMsg.ident ∈ (batch sort q seqMsg).map (·.ident) :=
        List.mem_map.mpr ⟨e, mem, alone e mem⟩
      rw [Finset.mem_erase, ← split]
      constructor
      · rintro ⟨other, inBatch | left⟩
        · obtain ⟨e', mem', rfl⟩ := List.mem_map.mp inBatch
          exact (other (alone e' mem')).elim
        · exact left
      · intro left
        exact ⟨fun same => apart _ gone _ left same.symm, Or.inr left⟩
  refine ⟨⟨rest, members⟩, fun m mem => ?_⟩
  have inBatch : m.ident ∈ (batch sort q seqMsg).map (·.ident) := by
    change m ∈ (q.markDeliverable sort seqMsg).delivered at mem
    rw [markDeliverable_of_mem pending] at mem
    obtain ⟨e, he, rfl⟩ := List.mem_map.mp mem
    exact List.mem_map.mpr ⟨e, he, rfl⟩
  have gone : m.ident ∉ (q.markDeliverable sort seqMsg).queue.idents := fun left =>
    apart _ inBatch _ left rfl
  exact ⟨fun left => gone ((members _).mp left), gone⟩

/-- An entry of another message leaves the deque but not the set. -/
theorem Represented.not_markDeliverable (h : q.Represented)
    (pending : seqMsg.ident ∈ q.pendingMsgSet)
    (other : ∃ e ∈ batch sort q seqMsg, e.ident ≠ seqMsg.ident) :
    ¬ (q.markDeliverable sort seqMsg).queue.Represented := by
  intro h'
  obtain ⟨e, mem, other⟩ := other
  have perm := idents_markDeliverable sort pending
  have inBatch : e.ident ∈ (batch sort q seqMsg).map (·.ident) := List.mem_map.mpr ⟨e, mem, rfl⟩
  have nodup := perm.nodup_iff.mpr h.nodup
  rw [List.nodup_append] at nodup
  have before : e.ident ∈ q.pendingMsgSet :=
    (h.pending _).mpr (perm.mem_iff.mp (List.mem_append_left _ inBatch))
  have stays : e.ident ∈ (q.markDeliverable sort seqMsg).queue.pendingMsgSet := by
    rw [pendingMsgSet_markDeliverable pending, if_neg (List.ne_nil_of_mem mem)]
    exact Finset.mem_erase.mpr ⟨other, before⟩
  exact nodup.2.2 _ inBatch _ ((h'.pending _).mp stays) rfl

end Mark

/-- **One call** keeps the representation exactly when it releases no other message. -/
theorem Represented.after_iff {q : HoldBackQueue} (h : q.Represented)
    (sort : StdSort PendingMsg.lt) (c : Call) :
    RepresentedAfter sort q c ↔ q.ReleasesAlone c := by
  cases c with
  | addToQueue dataMsg proposedSeq proposer =>
      refine ⟨fun _ => trivial, fun _ => ⟨h.addToQueue _ _ _, fun m mem => ?_⟩⟩
      cases mem
  | markDeliverable seqMsg =>
      change _ ↔ ¬ q.ReleasesOther seqMsg
      by_cases pending : seqMsg.ident ∈ q.pendingMsgSet
      · rw [h.releasesOther_iff sort pending]
        constructor
        · intro represented other
          exact h.not_markDeliverable pending other represented.represented
        · intro alone
          apply h.markDeliverable pending
          intro e mem
          by_contra other
          exact alone ⟨e, mem, other⟩
      · have same := markDeliverable_of_notMem sort pending
        refine ⟨fun _ releases => pending releases.1, fun _ => ⟨?_, fun m mem => ?_⟩⟩
        · change (q.markDeliverable sort seqMsg).queue.Represented
          rw [same]
          exact h
        · change m ∈ (q.markDeliverable sort seqMsg).delivered at mem
          rw [same] at mem
          cases mem

/-- **The representation of the queue.**  After every call of a sequence the deque and
`pendingMsgSet` agree, exactly when no call of it releases a message that it does not mark. -/
theorem represented_iff (sort : StdSort PendingMsg.lt) (calls : List Call) :
    allowedAlong (call sort) (RepresentedAfter sort) {} calls ↔
      allowedAlong (call sort) ReleasesAlone {} calls := by
  apply allowedAlong_congr (I := Represented) ?_ ?_ Represented.empty
  · intro q c h
    exact h.after_iff sort c
  · rintro q c _ h alone ⟨⟩
    exact ((h.after_iff sort c).mpr alone).represented

/-- The second message gets its number first and waits behind the first one, which then
releases both. -/
def releasingCalls : List Call :=
  [.addToQueue ⟨1, 1, 1, 7⟩ 1 1, .addToQueue ⟨1, 1, 2, 8⟩ 2 1,
    .markDeliverable ⟨3, 1, 2, 2, 1⟩, .markDeliverable ⟨3, 1, 1, 1, 1⟩]

/-- The identifier of the second message stays in the set when the message is delivered. -/
theorem delivered_still_pending :
    ¬ ∀ sort calls, allowedAlong (call sort) (RepresentedAfter sort) {} calls := by
  intro claim
  have along := claim (.insertion PendingMsg.key PendingMsg.keyedBy_key) releasingCalls
  have last := (((along.2 _ rfl).2 _ rfl).2 _ rfl).1
  have both := last.represented.pending ⟨2, 1⟩
  revert both
  decide +kernel

end HoldBackQueue

end GroupComm.Lab1
