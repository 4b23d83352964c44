import GroupComm.Lab1.Soundness

/-!
# What a step does to the hold-back queues

A step accepts a message at one host, handles a final number at one host, chooses a final
number, or leaves queues and numbers alone (`Sound.progress`).
-/

namespace GroupComm.Lab1

namespace System

variable {Host : Type} [DecidableEq Host] {D : Deployment Host} {s s' : System Host}

/-- Nothing happens to the hold-back queues, the caches and the counters of the hosts. -/
structure SameQueues (s s' : System Host) : Prop where
  queue : ∀ p, (s'.service p).holdBackQueue = (s.service p).holdBackQueue
  cache : ∀ p, (s'.service p).ackMessageCache = (s.service p).ackMessageCache
  latestSeqId : ∀ p, (s'.service p).latestSeqId = (s.service p).latestSeqId
  delivered : s'.delivered = s.delivered
  accepted : s'.accepted = s.accepted

omit [DecidableEq Host] in
theorem SameQueues.settled (same : SameQueues s s') {p : Host} {id : MsgIdentifier} :
    s'.Settled p id ↔ s.Settled p id :=
  settled_congr (same.queue p) (by rw [same.delivered])

/-- The datagram that an event hands to a host. -/
def incoming (s : System Host) : Event Host → Option (Host × Packet)
  | .receive src dst i _ => (s.channel src dst)[i]?.map fun packet => (dst, packet)
  | _ => none

/-- What a step does as far as the queues are concerned, when `handled` is the datagram that
was handed to a host. -/
inductive Progress (D : Deployment Host) (handled : Option (Host × Packet))
    (s s' : System Host) : Prop
  | quiet : SameQueues s s' → s'.finals = s.finals → Progress D handled s s'
  | accept {p src : Host} {m : DataMessage} :
    handled = some (p, .data m) → p ∈ D.hostnames →
      m.ident ∉ (s.service p).holdBackQueue.pendingMsgSet →
      s' = s.commit p (s.acceptance D p src m) → Progress D handled s s'
  | choose {f : SeqMessage} :
    SameQueues s s' → s'.finals = s.finals ++ [f] → Progress D handled s s'
  | finish {p src : Host} {m : SeqMessage} :
    handled = some (p, .seq m) → p ∈ D.hostnames → m ∈ s.finals →
      s' = s.commit p (s.finishing D p src m) →
      Progress D handled s s'

theorem sameQueues_commit {p : Host} {o : Outcome Host}
    (queue : o.service.holdBackQueue = (s.service p).holdBackQueue)
    (cache : o.service.ackMessageCache = (s.service p).ackMessageCache)
    (latest : o.service.latestSeqId = (s.service p).latestSeqId)
    (delivered : o.delivered = []) (accepted : o.accepted = []) :
    SameQueues s (s.commit p o) := by
  refine ⟨fun q => ?_, fun q => ?_, fun q => ?_, funext fun q => ?_, by simp [accepted]⟩ <;>
    by_cases same : q = p
  · rw [same, commit_service_self, queue]
  · rw [commit_service_of_ne same]
  · rw [same, commit_service_self, cache]
  · rw [commit_service_of_ne same]
  · rw [same, commit_service_self, latest]
  · rw [commit_service_of_ne same]
  · rw [same, commit_delivered_self, delivered, List.append_nil]
  · rw [commit_delivered_of_ne same]

/-- What a handled datagram does to the queues. -/
theorem Sound.progress_of_packet (sound : Sound D s) {src dst : Host} (hsrc : src ∈ D.hostnames)
    (hdst : dst ∈ D.hostnames) {packet : Packet} (holds : s.PacketSound D src dst packet)
    {o : Outcome Host} (handled : (s.service dst).processPacket D dst packet = some o) :
    Progress D (some (dst, packet)) s (s.commit dst o) := by
  cases packet with
  | data m =>
      have sender := Hostfile.recipientIdMap_of_eq hsrc ((sound.sender src hsrc).own m holds)
      simp only [MulticastService.processPacket] at handled
      by_cases pending : m.ident ∈ (s.service dst).holdBackQueue.pendingMsgSet
      · rw [MulticastService.processDataMsg_of_pending sender pending,
          Option.map_eq_some_iff] at handled
        obtain ⟨ack, _, rfl⟩ := handled
        exact .quiet (sameQueues_commit rfl rfl rfl rfl rfl) (by simp)
      · rw [MulticastService.processDataMsg_of_new sender pending, Option.some.injEq] at handled
        exact .accept rfl hdst pending (by rw [← handled]; rfl)
  | ack m =>
      have proposer := Hostfile.recipientIdMap_of_eq hsrc holds.1
      simp only [MulticastService.processPacket] at handled
      rcases (s.service dst).processAckMsg_cases proposer with
        ⟨_, eq⟩ | ⟨_, ⟨_, eq⟩ | ⟨_, f, _, eq⟩⟩
      · rw [eq, Option.some.injEq] at handled
        subst handled
        exact .quiet (sameQueues_commit rfl rfl rfl rfl rfl) (by simp)
      · rw [eq, Option.some.injEq] at handled
        subst handled
        exact .quiet (sameQueues_commit rfl rfl rfl rfl rfl) (by simp)
      · rw [eq, Option.some.injEq] at handled
        subst handled
        exact .choose (f := f) (sameQueues_commit rfl rfl rfl rfl rfl) rfl
  | seq m =>
      simp only [MulticastService.processPacket,
        MulticastService.processSeqMsg_eq (Hostfile.recipientIdMap_of_eq hsrc holds.2),
        Option.some.injEq] at handled
      exact .finish rfl hdst holds.1 (by rw [← handled]; rfl)
  | seqAck m =>
      simp only [MulticastService.processPacket,
        MulticastService.processSeqAckMsg_eq (Hostfile.recipientIdMap_of_eq hsrc holds.1),
        Option.some.injEq] at handled
      subst handled
      exact .quiet (sameQueues_commit rfl rfl rfl rfl rfl) (by simp)

omit [DecidableEq Host] in
theorem ChannelsOnly.refl (s : System Host) : ChannelsOnly s s := ⟨rfl, rfl, rfl, rfl, rfl⟩

omit [DecidableEq Host] in
theorem ChannelsOnly.sameQueues (only : ChannelsOnly s s') : SameQueues s s' := by
  obtain ⟨service, delivered, _, accepted, _⟩ := only
  exact ⟨fun p => by rw [service], fun p => by rw [service], fun p => by rw [service], delivered,
    accepted⟩

/-- A step is a change of the queues after one of the channels. -/
theorem Sound.progress_of_step (sound : Sound D s) {e : Event Host}
    (taken : s.step D e = some s') :
    ∃ t, ChannelsOnly s t ∧ Sound D t ∧ Progress D (s.incoming e) t s' := by
  have sends : ∀ {t : System Host}, ChannelsOnly s t → Progress D none s t := fun only =>
    .quiet only.sameQueues only.finals
  cases e with
  | multicast p data =>
      obtain ⟨_, rfl⟩ := step_multicast taken
      refine ⟨s, .refl s, sound, .quiet ⟨fun q => ?_, fun q => ?_, fun q => ?_, rfl, rfl⟩ rfl⟩ <;>
        by_cases same : q = p
      · simp [same, MulticastService.multicast]
      · simp [same]
      · simp [same, MulticastService.multicast]
      · simp [same]
      · simp [same, MulticastService.multicast]
      · simp [same]
  | sendData p i recipient =>
      obtain ⟨_, _, _, _, rfl⟩ := step_sendData taken
      exact ⟨s, .refl s, sound, sends ⟨rfl, rfl, rfl, rfl, rfl⟩⟩
  | sendSeq p i recipient =>
      obtain ⟨_, _, _, _, rfl⟩ := step_sendSeq taken
      exact ⟨s, .refl s, sound, sends ⟨rfl, rfl, rfl, rfl, rfl⟩⟩
  | receive src dst i copy =>
      obtain ⟨_, packet, found, ⟨o, handled, rfl⟩ | ⟨_, rfl⟩⟩ := step_receive taken
      · obtain ⟨hsrc, hdst, holds⟩ := sound.packets src dst packet (List.mem_of_getElem? found)
        have shrunk := sound.setChannel (leftover_subset (s.channel src dst) i copy)
        have into : s.incoming (.receive src dst i copy) = some (dst, packet) := by
          simp [incoming, found]
        rw [into]
        refine ⟨s.setChannel src dst (leftover (s.channel src dst) i copy),
          ⟨rfl, rfl, rfl, rfl, rfl⟩, shrunk, shrunk.progress_of_packet hsrc hdst ?_ handled⟩
        cases packet <;> exact holds
      · exact ⟨s, .refl s, sound,
          .quiet ⟨fun _ => rfl, fun _ => rfl, fun _ => rfl, rfl, rfl⟩ rfl⟩
  | lose src dst i =>
      rw [step_lose taken]
      exact ⟨s, .refl s, sound, sends ⟨rfl, rfl, rfl, rfl, rfl⟩⟩

theorem Sound.progress (sound : Sound D s) {e : Event Host} (taken : s.step D e = some s') :
    ∃ t, Sound D t ∧ SameQueues s t ∧ t.finals = s.finals ∧
      Progress D (s.incoming e) t s' := by
  obtain ⟨t, only, sound, progress⟩ := sound.progress_of_step taken
  exact ⟨t, sound, only.sameQueues, only.finals, progress⟩

/-! ## What a step settles -/

/-- Accepting a message settles nothing. -/
theorem settled_of_settled_acceptance {p src : Host} {m : DataMessage} {q : Host}
    {id : MsgIdentifier} (settled : (s.commit p (s.acceptance D p src m)).Settled q id) :
    s.Settled q id := by
  by_cases same : q = p
  · subst same
    rcases settled with ⟨d, hd, eq⟩ | ⟨e, he, eq, deliverable⟩
    · rw [commit_delivered_self] at hd
      exact Or.inl ⟨d, by simpa [acceptance] using hd, eq⟩
    · rw [commit_service_self] at he
      rcases List.mem_append.mp he with old | new
      · exact Or.inr ⟨e, old, eq, deliverable⟩
      · rw [List.mem_singleton] at new
        subst new
        cases deliverable
  · exact (settled_congr (by rw [commit_service_of_ne same])
      (by rw [commit_delivered_of_ne same])).mp settled

/-- A final number settles its own message only. -/
theorem settled_of_settled_finishing {p src : Host} {m : SeqMessage} {q : Host}
    {id : MsgIdentifier} (settled : (s.commit p (s.finishing D p src m)).Settled q id) :
    s.Settled q id ∨ (q = p ∧ id = m.ident ∧
      ((s.service p).holdBackQueue.markDeliverable D.sort m).marked = true) := by
  set t := s.commit p (s.finishing D p src m) with ht
  by_cases same : q = p
  swap
  · exact Or.inl ((settled_congr (by rw [ht, commit_service_of_ne same])
      (by rw [ht, commit_delivered_of_ne same])).mp settled)
  subst same
  by_cases pending : m.ident ∈ (s.service q).holdBackQueue.pendingMsgSet
  · obtain ⟨deque, delivered, _⟩ := queue_finishing_of_mem D src pending
    have entry : ∀ e ∈ s.sortedAt D q m, e.deliverable = true →
        s.Settled q e.ident ∨ e.ident = m.ident ∧
          ((s.service q).holdBackQueue.markDeliverable D.sort m).marked = true := by
      intro e mem deliverable
      rw [HoldBackQueue.markDeliverable_of_mem pending]
      exact (HoldBackQueue.settled_of_sortedDeque mem deliverable).imp_left Or.inr
    rcases settled with ⟨d, hd, rfl⟩ | ⟨e, he, rfl, deliverable⟩
    · rw [delivered] at hd
      rcases List.mem_append.mp hd with old | new
      · exact Or.inl (Or.inl ⟨d, old, rfl⟩)
      · obtain ⟨e, mem, rfl⟩ := List.mem_map.mp new
        exact (entry e ((List.takeWhile_prefix _).subset mem)
          (List.mem_takeWhile_imp mem)).imp_right fun h => ⟨rfl, h⟩
    · rw [deque] at he
      exact (entry e ((List.dropWhile_suffix _).subset he) deliverable).imp_right
        fun h => ⟨rfl, h⟩
  · obtain ⟨queue, delivered⟩ := queue_finishing_of_notMem D src pending
    exact Or.inl ((settled_congr queue delivered).mp settled)

/-- What is settled after a step was settled before, or its final number has been handled. -/
theorem Progress.settled_cases {handled : Option (Host × Packet)}
    (progress : Progress D handled s s') {q : Host} {id : MsgIdentifier}
    (settled : s'.Settled q id) :
    s.Settled q id ∨ ∃ f : SeqMessage, handled = some (q, .seq f) ∧ f.ident = id := by
  cases progress with
  | quiet same _ => exact Or.inl (same.settled.mp settled)
  | accept _ _ _ eq =>
      subst eq
      exact Or.inl (settled_of_settled_acceptance settled)
  | choose same _ => exact Or.inl (same.settled.mp settled)
  | @finish p src m eq _ _ eq' =>
      subst eq'
      rcases settled_of_settled_finishing settled with old | ⟨rfl, rfl, _⟩
      · exact Or.inl old
      · exact Or.inr ⟨m, eq, rfl⟩

/-- The log of the acceptances only grows. -/
theorem Progress.accepted_length {handled : Option (Host × Packet)}
    (progress : Progress D handled s s') :
    s.accepted.length ≤ s'.accepted.length := by
  cases progress with
  | quiet same _ => rw [same.accepted]
  | accept _ _ _ eq => simp [eq]
  | choose same _ => rw [same.accepted]
  | finish _ _ _ eq => simp [eq]

end System

end GroupComm.Lab1
