import GroupComm.Lab1.Progress
import GroupComm.Lab1.Representation

/-!
# Answers to late copies of a `DataMessage`

A copy of a `DataMessage` that is still pending is answered from `ackMessageCache`.  But
`processSeqMsg` takes the answer out of the cache as soon as the final number arrives, while
the message stays pending for as long as another one is in front of it.  A copy that arrives in
between makes `createOrGetAckMessage` throw.

* `Answers`: whatever `DataMessage` arrives at a host is answered.
* `answers_iff`: every host answers throughout a run exactly when no message gets its final
  number while another one is in front of it.
-/

namespace GroupComm.Lab1

open Transition StdAlgorithm

namespace HoldBackQueue

/-- Once a pending message has its final number it comes before all others. -/
def MarksFront (q : HoldBackQueue) (seqMsg : SeqMessage) : Prop :=
  seqMsg.ident ∈ q.pendingMsgSet →
    ∀ u ∈ q.deque, u.ident ≠ seqMsg.ident → seqMsg.finalSeq < u.finalSeqId

instance (q : HoldBackQueue) (seqMsg : SeqMessage) : Decidable (q.MarksFront seqMsg) :=
  inferInstanceAs (Decidable (_ → _))

/-- The queue is well represented and no message in it has its final number. -/
structure Unmarked (q : HoldBackQueue) : Prop extends Represented q where
  undeliverable : ∀ e ∈ q.deque, e.deliverable = false

variable {sort : StdSort PendingMsg.lt} {q : HoldBackQueue} {seqMsg : SeqMessage}

theorem Unmarked.addToQueue (h : q.Unmarked) (dataMsg : DataMessage)
    (proposedSeq proposer : UInt32) :
    (q.addToQueue dataMsg proposedSeq proposer).2.Unmarked := by
  refine ⟨h.toRepresented.addToQueue dataMsg proposedSeq proposer, fun e mem => ?_⟩
  unfold HoldBackQueue.addToQueue at mem
  split at mem
  · exact h.undeliverable e mem
  · rcases List.mem_append.mp mem with old | new
    · exact h.undeliverable e old
    · rw [List.mem_singleton] at new
      subst new
      rfl

/-- What is deliverable in the middle of a call is the marked entry. -/
theorem Unmarked.marked (h : q.Unmarked) {e : PendingMsg} (mem : e ∈ sortedDeque sort q seqMsg)
    (deliverable : e.deliverable = true) :
    e.ident = seqMsg.ident ∧ e.finalSeqId = seqMsg.finalSeq := by
  rcases mem_sortedDeque mem with old | ⟨_, _, same, rfl⟩
  · rw [h.undeliverable e old] at deliverable
    cases deliverable
  · exact ⟨same, rfl⟩

/-- The call delivers something when the marked entry comes first. -/
theorem Unmarked.batch_iff (sort : StdSort PendingMsg.lt) (h : q.Unmarked)
    (pending : seqMsg.ident ∈ q.pendingMsgSet) :
    batch sort q seqMsg ≠ [] ↔ q.MarksFront seqMsg := by
  constructor
  · intro nonempty _ u hu other
    obtain ⟨e, mem⟩ := List.exists_mem_of_ne_nil _ nonempty
    obtain ⟨sorted, deliverable, first⟩ := mem_batch_iff.mp mem
    rw [← (h.marked sorted deliverable).2]
    exact first u (mem_sortedDeque_of_ne hu other) (h.undeliverable u hu)
  · intro front
    obtain ⟨p, hp, same⟩ := List.mem_map.mp ((h.pending _).mp pending)
    obtain ⟨_, e, mem, _, deliverable⟩ := marked_of_mem sort hp same
    have inBatch : e ∈ batch sort q seqMsg := by
      refine mem_batch_iff.mpr ⟨mem, deliverable, fun u hu undeliverable => ?_⟩
      obtain ⟨old, other, _⟩ := (h.undeliverable_iff pending).mp ⟨hu, undeliverable⟩
      rw [(h.marked mem deliverable).2]
      exact front pending u old other
    exact List.ne_nil_of_mem inBatch

/-- The identifier of the message is taken out of the set exactly when its entry comes first. -/
theorem Unmarked.pending_iff (sort : StdSort PendingMsg.lt) (h : q.Unmarked) :
    seqMsg.ident ∉ (q.markDeliverable sort seqMsg).queue.pendingMsgSet ↔
      q.MarksFront seqMsg := by
  by_cases pending : seqMsg.ident ∈ q.pendingMsgSet
  · rw [← h.batch_iff sort pending, pendingMsgSet_markDeliverable pending]
    split_ifs with empty
    · exact ⟨fun gone => (gone pending).elim, fun nonempty => (nonempty empty).elim⟩
    · exact ⟨fun _ => empty, fun _ => Finset.notMem_erase _ _⟩
  · rw [markDeliverable_of_notMem sort pending]
    exact ⟨fun _ inSet => (pending inSet).elim, fun _ => pending⟩

theorem Unmarked.markDeliverable (h : q.Unmarked) (front : q.MarksFront seqMsg) :
    (q.markDeliverable sort seqMsg).queue.Unmarked := by
  by_cases pending : seqMsg.ident ∈ q.pendingMsgSet
  · have alone : ∀ e ∈ batch sort q seqMsg, e.ident = seqMsg.ident := by
      intro e mem
      obtain ⟨sorted, deliverable, _⟩ := mem_batch_iff.mp mem
      exact (h.marked sorted deliverable).1
    refine ⟨(h.toRepresented.markDeliverable pending alone).represented, fun e mem => ?_⟩
    by_contra deliverable
    rw [Bool.not_eq_false] at deliverable
    -- the marked entry has been delivered, so it is not left in the deque
    have left : e.ident ∈ (q.markDeliverable sort seqMsg).queue.idents :=
      List.mem_map.mpr ⟨e, mem, rfl⟩
    rw [markDeliverable_of_mem pending] at mem
    have same := (h.marked ((List.dropWhile_suffix _).subset mem) deliverable).1
    obtain ⟨b, inBatch⟩ := List.exists_mem_of_ne_nil _ ((h.batch_iff sort pending).mpr front)
    have nodup := (idents_markDeliverable sort pending).nodup_iff.mpr h.nodup
    exact (List.nodup_append.mp nodup).2.2 _ (List.mem_map.mpr ⟨b, inBatch, alone b inBatch⟩) _
      (same ▸ left) rfl
  · rw [markDeliverable_of_notMem sort pending]
    exact h

end HoldBackQueue

namespace System

variable {Host : Type} [DecidableEq Host]

/-- Every pending message of a host has an answer in its cache, and every `DataMessage` that
can arrive there is answered. -/
structure Answers (D : Deployment Host) (s : System Host) (p : Host) : Prop where
  cached : ∀ id ∈ (s.service p).holdBackQueue.pendingMsgSet,
    (s.service p).ackMessageCache id ≠ none
  answered : ∀ dataMsg sender, D.recipientIdMap dataMsg.sender = some sender →
    ∃ o ackMsg, (s.service p).processDataMsg D p dataMsg = some o ∧
      o.sent = [(sender, .ack ackMsg)]

/-- A final number that is handed to a host is below the numbers of all other messages that
wait there. -/
def NumberedFirst (D : Deployment Host) (s : System Host) (e : Event Host) : Prop :=
  match s.incoming e with
  | some (p, .seq m) => s.running D p → (s.service p).holdBackQueue.MarksFront m
  | _ => True

variable {D : Deployment Host} {s s' : System Host}

/-- A cache that has all pending messages answers everything. -/
theorem answers_of_cached {p : Host}
    (cached : ∀ id ∈ (s.service p).holdBackQueue.pendingMsgSet,
      (s.service p).ackMessageCache id ≠ none) : s.Answers D p := by
  refine ⟨cached, fun dataMsg sender known => ?_⟩
  by_cases pending : dataMsg.ident ∈ (s.service p).holdBackQueue.pendingMsgSet
  · obtain ⟨ackMsg, found⟩ := Option.ne_none_iff_exists'.mp (cached _ pending)
    exact ⟨_, ackMsg, by rw [MulticastService.processDataMsg_of_pending known pending, found,
      Option.map_some], rfl⟩
  · exact ⟨_, _, MulticastService.processDataMsg_of_new known pending, rfl⟩

/-- Nothing waits at a host for another message, and the cache has all that is pending. -/
structure Unblocked (s : System Host) (p : Host) : Prop where
  unmarked : (s.service p).holdBackQueue.Unmarked
  cached : ∀ id ∈ (s.service p).holdBackQueue.pendingMsgSet,
    (s.service p).ackMessageCache id ≠ none

omit [DecidableEq Host] in
theorem Unblocked.quiet {p : Host} (h : s.Unblocked p) (same : SameQueues s s') :
    s'.Unblocked p := by
  obtain ⟨unmarked, cached⟩ := h
  constructor
  · rw [same.queue]
    exact unmarked
  · rw [same.queue, same.cache]
    exact cached

theorem Unblocked.accept {p q src : Host} {m : DataMessage} (h : s.Unblocked q)
    (new : m.ident ∉ (s.service p).holdBackQueue.pendingMsgSet) :
    (s.commit p (s.acceptance D p src m)).Unblocked q := by
  by_cases here : q = p
  · subst here
    constructor
    · rw [commit_service_self]
      have added := h.unmarked.addToQueue m ((s.service q).latestSeqId + 1)
        (D.processIdentifier q)
      rw [HoldBackQueue.addToQueue, if_neg new] at added
      exact added
    · intro id mem
      rw [commit_service_self] at mem ⊢
      change id ∈ insert m.ident _ at mem
      change Function.update (s.service q).ackMessageCache m.ident (some _) id ≠ none
      rw [Function.update_apply]
      split_ifs with same
      · exact Option.some_ne_none _
      · exact h.cached id ((Finset.mem_insert.mp mem).resolve_left same)
  · obtain ⟨unmarked, cached⟩ := h
    constructor
    · rw [commit_service_of_ne here]
      exact unmarked
    · rw [commit_service_of_ne here]
      exact cached

/-- The cache has lost the answer for a message that is still pending, unless the message came
first. -/
theorem Unblocked.marksFront {p src : Host} {m : SeqMessage} (h : s.Unblocked p)
    (answers : (s.commit p (s.finishing D p src m)).Answers D p) :
    (s.service p).holdBackQueue.MarksFront m := by
  rw [← h.unmarked.pending_iff D.sort]
  intro pending
  apply answers.cached m.ident
  · rw [commit_service_self]
    exact pending
  · rw [commit_service_self]
    exact Function.update_self _ _ _

theorem Unblocked.finish {p q src : Host} {m : SeqMessage} (h : s.Unblocked q)
    (front : (s.service p).holdBackQueue.MarksFront m) :
    (s.commit p (s.finishing D p src m)).Unblocked q := by
  by_cases here : q = p
  · subst here
    constructor
    · rw [commit_service_self]
      exact h.unmarked.markDeliverable front
    · intro id mem
      have before := pendingMsgSet_finishing mem
      rw [commit_service_self] at mem ⊢
      change Function.update (s.service q).ackMessageCache m.ident none id ≠ none
      rw [Function.update_apply]
      split_ifs with same
      · subst same
        exact ((h.unmarked.pending_iff D.sort).mpr front mem).elim
      · exact h.cached id before
  · obtain ⟨unmarked, cached⟩ := h
    constructor
    · rw [commit_service_of_ne here]
      exact unmarked
    · rw [commit_service_of_ne here]
      exact cached

/-- A final number is handed to a host that runs. -/
theorem Sound.step_of_seq (sound : Sound D s) {e : Event Host} {p : Host} {m : SeqMessage}
    (into : s.incoming e = some (p, .seq m)) (running : s.running D p) :
    ∃ t src, SameQueues s t ∧ s.step D e = some (t.commit p (t.finishing D p src m)) := by
  cases e with
  | receive src dst i copy =>
      obtain ⟨packet, found, eq⟩ := Option.map_eq_some_iff.mp into
      cases eq
      obtain ⟨hsrc, _, holds⟩ := sound.packets src p _ (List.mem_of_getElem? found)
      have known := Hostfile.recipientIdMap_of_eq hsrc holds.2
      exact ⟨s.setChannel src p (leftover (s.channel src p) i copy), src,
        ⟨fun _ => rfl, fun _ => rfl, fun _ => rfl, rfl, rfl⟩,
        step_receive_some found running (MulticastService.processSeqMsg_eq known)⟩
  | multicast => cases into
  | sendData => cases into
  | sendSeq => cases into
  | lose => cases into

theorem running_of_step {e : Event Host} (taken : s.step D e = some s') {p : Host}
    {packet : Packet} (into : s.incoming e = some (p, packet)) : s.running D p := by
  cases e with
  | receive src dst i copy =>
      obtain ⟨running, _⟩ := step_receive taken
      obtain ⟨_, _, eq⟩ := Option.map_eq_some_iff.mp into
      cases eq
      exact running
  | multicast => cases into
  | sendData => cases into
  | sendSeq => cases into
  | lose => cases into

/-- A step that is allowed lets nothing wait. -/
theorem Unblocked.step (sound : Sound D s) (h : ∀ p, s.Unblocked p) {e : Event Host}
    (first : s.NumberedFirst D e) (taken : s.step D e = some s') : ∀ p, s'.Unblocked p := by
  obtain ⟨t, _, same, _, progress⟩ := sound.progress taken
  have before : ∀ p, t.Unblocked p := fun p => (h p).quiet same
  intro p
  cases progress with
  | quiet same' _ => exact (before p).quiet same'
  | accept _ _ new eq =>
      rw [eq]
      exact (before p).accept new
  | choose same' _ => exact (before p).quiet same'
  | @finish q src m into _ _ eq =>
      rw [eq]
      apply (before p).finish
      unfold NumberedFirst at first
      rw [into] at first
      rw [same.queue]
      exact first (running_of_step taken into)

/-- Every host answers after a step exactly when the step is allowed. -/
theorem Unblocked.answers_step_iff (sound : Sound D s) (h : ∀ p, s.Unblocked p) (e : Event Host) :
    (∀ s' ∈ s.step D e, ∀ p, s'.Answers D p) ↔ s.NumberedFirst D e := by
  constructor
  · intro answers
    unfold NumberedFirst
    split
    · rename_i p m into
      intro running
      obtain ⟨t, src, same, taken⟩ := sound.step_of_seq into running
      have before := ((h p).quiet same).marksFront (answers _ taken p)
      rwa [same.queue] at before
    · trivial
  · intro first s' taken p
    exact answers_of_cached (Unblocked.step sound h first taken p).cached

omit [DecidableEq Host] in
theorem unblocked_initial (p : Host) : (initial Host).Unblocked p :=
  ⟨⟨HoldBackQueue.Represented.empty, by simp [initial]⟩, by simp [initial]⟩

/-- **Answers.**  In every state of a run every host can answer whatever `DataMessage` arrives,
exactly when no message is given its final number while another one is in front of it. -/
theorem answers_iff (D : Deployment Host) (events : List (Event Host)) :
    (∀ s, Visits (step D) (initial Host) events s → ∀ p, s.Answers D p) ↔
      allowedAlong (step D) (NumberedFirst D) (initial Host) events := by
  rw [forall_visits_iff, and_iff_right fun p => answers_of_cached (unblocked_initial p).cached]
  apply allowedAlong_congr (I := fun s => s.Reachable D ∧ ∀ p, s.Unblocked p)
  · rintro s e ⟨reachable, unblocked⟩
    exact Unblocked.answers_step_iff (sound_of_reachable reachable) unblocked e
  · rintro s e s' ⟨reachable, unblocked⟩ first taken
    exact ⟨reachable.next trivial taken,
      Unblocked.step (sound_of_reachable reachable) unblocked first taken⟩
  · exact ⟨.start, unblocked_initial⟩

end System

/-- Each host accepts its own message first.  The final number of the second message arrives at
the first host while the first message is in front of it there, and a copy of the second
`DataMessage` is still on its way. -/
def overtakingRun : List (Event Bool) :=
  [.multicast false 7, .multicast true 8,
    .sendData false 0 false, .sendData false 0 true, .sendData true 0 true, .sendData true 0 false,
    .receive false false 0 false, .receive true false 0 true,
    .receive true true 0 false, .receive false true 0 false,
    .receive true true 0 false, .receive false true 0 false,
    .sendSeq true 0 false, .receive true false 2 false]

/-- The state in which `overtakingRun` ends. -/
def overtaken : System Bool :=
  (replay (System.step twoHosts) (System.initial Bool) overtakingRun).get (by decide +kernel)

/-- The first host has no answer for the copy. -/
theorem pending_without_answer :
    ¬ ∀ s : System Bool, s.Reachable twoHosts → ∀ p ∈ twoHosts.hostnames,
      s.Answers twoHosts p := by
  intro claim
  have reachable : overtaken.Reachable twoHosts := Reach.of_isSome (allowedAlong_always _ _) _
  have pending : ⟨1, 2⟩ ∈ (overtaken.service false).holdBackQueue.pendingMsgSet := by
    decide +kernel
  apply (claim overtaken reachable false (by decide)).cached ⟨1, 2⟩ pending
  decide +kernel

end GroupComm.Lab1
