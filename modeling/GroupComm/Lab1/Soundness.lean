import GroupComm.Lab1.Invariant

/-!
# The invariant is kept by every step

* `Sound.quiet`: steps that touch channels only.
* `Sound.commit`: the end of a handler, from what the handler did at its own host.
* `sound_of_reachable`: every reachable state is `Sound`.
-/

namespace GroupComm.Lab1

open Transition

namespace System

variable {Host : Type} {s s' : System Host}

/-! ## What the other hosts see -/

theorem settled_congr {p : Host} {id : MsgIdentifier}
    (queue : (s'.service p).holdBackQueue = (s.service p).holdBackQueue)
    (delivered : s'.delivered p = s.delivered p) : s'.Settled p id ↔ s.Settled p id := by
  rw [Settled, Settled, queue, delivered]

variable [DecidableEq Host] {D : Deployment Host}

/-- A message that a host accepted is one that somebody multicast. -/
theorem ReceiverSound.genuine_of_accepted {p : Host} (h : s.ReceiverSound D p)
    {id : MsgIdentifier} {a : UInt32} (accepted : s.Accepted p id a) :
    ∃ m, s.Genuine D m ∧ m.ident = id := by
  rcases h.unsettled id a accepted with (⟨m, mem, same⟩ | ⟨e, mem, same, _⟩) |
    ⟨_, ⟨e, mem, same, _⟩, _⟩
  · exact ⟨m, (h.delivered m mem).1, same⟩
  · exact ⟨e.dataMsg, h.genuine e mem, same⟩
  · exact ⟨e.dataMsg, h.genuine e mem, same⟩

theorem Genuine.multicast {p : Host} (mem : p ∈ D.hostnames) {m : DataMessage}
    (genuine : s.Genuine D m) (sender : m.sender = D.processIdentifier p) : m ∈ s.multicasts p := by
  obtain ⟨q, hq, id, multicast⟩ := genuine
  rwa [Hostfile.processIdentifier_inj mem hq (sender.symm.trans id.symm)]

/-! ## Steps that touch channels only -/

/-- Sending, losing and stopping leave what the services know as it was. -/
structure ChannelsOnly (s s' : System Host) : Prop where
  service : s'.service = s.service
  delivered : s'.delivered = s.delivered
  multicasts : s'.multicasts = s.multicasts
  accepted : s'.accepted = s.accepted
  finals : s'.finals = s.finals

omit [DecidableEq Host] in
theorem ChannelsOnly.grows (only : ChannelsOnly s s') : Grows s s' := by
  refine ⟨?_, ?_, ?_, fun p id settled => ?_⟩
  · rw [only.accepted]
    exact fun _ h => h
  · rw [only.finals]
    exact fun _ h => h
  · rw [only.multicasts]
    exact fun _ _ h => h
  · exact (settled_congr (by rw [only.service]) (by rw [only.delivered])).mpr settled

theorem Sound.quiet (sound : Sound D s) (only : ChannelsOnly s s')
    (packets : ∀ a b, ∀ packet ∈ s'.channel a b, packet ∈ s.channel a b ∨
      (a ∈ D.hostnames ∧ b ∈ D.hostnames ∧ s.PacketSound D a b packet)) : Sound D s' := by
  have grows := only.grows
  obtain ⟨service, delivered, multicasts, accepted, finals⟩ := only
  refine ⟨fun p mem => ?_, fun p mem => ?_, fun a b packet mem => ?_, ?_⟩
  · exact (sound.sender p mem).frame grows (by rw [service]) (by rw [service]) (by rw [service])
      (by rw [service]) (by rw [multicasts])
  · exact (sound.receiver p mem).frame grows (by rw [service]) (by rw [service])
      (by rw [delivered]) (by rw [accepted])
  · rcases packets a b packet mem with old | ⟨ha, hb, holds⟩
    · obtain ⟨ha, hb, holds⟩ := sound.packets a b packet old
      exact ⟨ha, hb, holds.mono grows⟩
    · exact ⟨ha, hb, holds.mono grows⟩
  · rw [finals]
    exact fun f hf => (sound.finalSound f hf).mono grows

theorem Sound.setChannel (sound : Sound D s) {src dst : Host} {l : List Packet}
    (sub : l ⊆ s.channel src dst) : Sound D (s.setChannel src dst l) :=
  sound.quiet ⟨rfl, rfl, rfl, rfl, rfl⟩ fun _ _ _ mem => Or.inl (mem_channel_setChannel mem sub)

theorem Sound.post (sound : Sound D s) {p : Host} {sent : List (Host × Packet)}
    (holds : ∀ x ∈ sent,
      p ∈ D.hostnames ∧ x.1 ∈ D.hostnames ∧ s.PacketSound D p x.1 x.2) :
    Sound D (s.post p sent) := by
  refine sound.quiet ⟨rfl, rfl, rfl, rfl, rfl⟩ fun a b packet mem => ?_
  rcases mem_channel_post.mp mem with old | ⟨rfl, new⟩
  · exact Or.inl old
  · exact Or.inr (holds _ new)

theorem Sound.sendData (sound : Sound D s) {p recipient : Host} {i : Nat}
    (taken : s.step D (.sendData p i recipient) = some s') : Sound D s' := by
  obtain ⟨⟨mem, _⟩, holder, held, owed, rfl⟩ := step_sendData taken
  obtain ⟨multicast, within⟩ := (sound.sender p mem).dataHeld holder held
  refine sound.post fun x hx => ?_
  rw [List.mem_singleton] at hx
  subst hx
  exact ⟨mem, within _ owed, multicast⟩

theorem Sound.sendSeq (sound : Sound D s) {p recipient : Host} {i : Nat}
    (taken : s.step D (.sendSeq p i recipient) = some s') : Sound D s' := by
  obtain ⟨⟨mem, _⟩, holder, held, owed, rfl⟩ := step_sendSeq taken
  obtain ⟨final, within⟩ := (sound.sender p mem).seqHeld holder held
  refine sound.post fun x hx => ?_
  rw [List.mem_singleton] at hx
  subst hx
  exact ⟨mem, within _ owed, final⟩

theorem Sound.lose (sound : Sound D s) {src dst : Host} {i : Nat}
    (taken : s.step D (.lose src dst i) = some s') : Sound D s' := by
  rw [step_lose taken]
  exact sound.setChannel (List.eraseIdx_subset)

/-! ## Multicasting -/

theorem toNat_add_one_le (x : UInt32) : (x + 1).toNat ≤ x.toNat + 1 := by
  rw [UInt32.toNat_add, UInt32.toNat_one]
  exact Nat.mod_le _ _

/-- The state after `multicast` has been called at `p`. -/
def multicasting (s : System Host) (D : Deployment Host) (p : Host) (data : UInt32) :
    System Host :=
  { s with
    service := Function.update s.service p ((s.service p).multicast D p data)
    multicasts := Function.update s.multicasts p
      (s.multicasts p ++ [(s.service p).createDataMessage D p data]) }

section Multicasting

variable {p : Host} {data : UInt32}

theorem multicasting_service_self :
    (s.multicasting D p data).service p = (s.service p).multicast D p data :=
  Function.update_self _ _ _

theorem multicasting_service_of_ne {q : Host} (ne : q ≠ p) :
    (s.multicasting D p data).service q = s.service q :=
  Function.update_of_ne ne _ _

theorem multicasting_multicasts_self :
    (s.multicasting D p data).multicasts p =
      s.multicasts p ++ [(s.service p).createDataMessage D p data] :=
  Function.update_self _ _ _

theorem multicasting_multicasts_of_ne {q : Host} (ne : q ≠ p) :
    (s.multicasting D p data).multicasts q = s.multicasts q :=
  Function.update_of_ne ne _ _

/-- What a host receives does not depend on what it multicasts. -/
theorem multicasting_receiver (q : Host) :
    ((s.multicasting D p data).service q).holdBackQueue = (s.service q).holdBackQueue ∧
      ((s.multicasting D p data).service q).ackMessageCache = (s.service q).ackMessageCache := by
  by_cases same : q = p
  · subst same
    rw [multicasting_service_self]
    exact ⟨rfl, rfl⟩
  · rw [multicasting_service_of_ne same]
    exact ⟨rfl, rfl⟩

theorem grows_multicasting : Grows s (s.multicasting D p data) := by
  refine ⟨fun _ h => h, fun _ h => h, fun q m hm => ?_, fun q id settled => ?_⟩
  · by_cases same : q = p
    · subst same
      rw [multicasting_multicasts_self]
      exact List.mem_append_left _ hm
    · rwa [multicasting_multicasts_of_ne same]
  · exact (settled_congr (multicasting_receiver q).1 rfl).mpr settled

theorem SenderSound.multicasting (own : s.SenderSound D p) :
    (s.multicasting D p data).SenderSound D p := by
  refine ⟨?_, ?_, ?_, ?_, ?_⟩
  · rw [multicasting_multicasts_self]
    intro m hm
    rcases List.mem_append.mp hm with old | new
    · exact own.own m old
    · rw [List.mem_singleton] at new
      subst new
      rfl
  · rw [multicasting_multicasts_self, multicasting_service_self, List.length_append]
    exact Nat.le_trans (toNat_add_one_le _) (Nat.succ_le_succ own.counted)
  · rw [multicasting_service_self, multicasting_multicasts_self]
    intro holder held
    rcases List.mem_append.mp held with old | new
    · obtain ⟨multicast, within⟩ := own.dataHeld holder old
      exact ⟨List.mem_append_left _ multicast, within⟩
    · rw [List.mem_singleton] at new
      subst new
      exact ⟨List.mem_append_right _ (List.mem_singleton_self _),
        fun r hr => List.mem_toFinset.mp hr⟩
  · rw [multicasting_service_self]
    exact own.proposed
  · rw [multicasting_service_self]
    exact own.seqHeld

end Multicasting

theorem Sound.multicasting (sound : Sound D s) {p : Host} (mem : p ∈ D.hostnames)
    (data : UInt32) : Sound D (s.multicasting D p data) := by
  have grows : Grows s (s.multicasting D p data) := grows_multicasting
  refine ⟨fun q hq => ?_, fun q hq => ?_, fun a b packet h => ?_, fun f hf => ?_⟩
  · by_cases same : q = p
    · subst same
      exact (sound.sender q mem).multicasting
    · have service : (s.multicasting D p data).service q = s.service q :=
        multicasting_service_of_ne same
      exact (sound.sender q hq).frame grows (by rw [service]) (by rw [service]) (by rw [service])
        (by rw [service]) (multicasting_multicasts_of_ne same)
  · exact (sound.receiver q hq).frame grows (multicasting_receiver q).1 (multicasting_receiver q).2
      rfl rfl
  · obtain ⟨ha, hb, holds⟩ := sound.packets a b packet h
    exact ⟨ha, hb, holds.mono grows⟩
  · exact (sound.finalSound f hf).mono grows

/-! ## The end of a handler -/

theorem grows_commit {p : Host} {o : Outcome Host}
    (settled : ∀ id, s.Settled p id → (s.commit p o).Settled p id) : Grows s (s.commit p o) := by
  refine ⟨fun x hx => ?_, fun f hf => ?_, fun _ _ h => h, fun q id h => ?_⟩
  · rw [commit_accepted]
    exact List.mem_append_left _ hx
  · rw [commit_finals]
    exact List.mem_append_left _ hf
  · by_cases same : q = p
    · subst same
      exact settled id h
    · exact (settled_congr (by rw [commit_service_of_ne same])
        (commit_delivered_of_ne same)).mpr h

/-- A handler of `p` keeps the invariant when it keeps the two parts of `p` itself, and what
it sends and queues is backed by the logs. -/
theorem Sound.commit (sound : Sound D s) {p : Host} (mem : p ∈ D.hostnames) {o : Outcome Host}
    (settled : ∀ id, s.Settled p id → (s.commit p o).Settled p id)
    (sender : (s.commit p o).SenderSound D p) (receiver : (s.commit p o).ReceiverSound D p)
    (sent : ∀ x ∈ o.sent, x.1 ∈ D.hostnames ∧ (s.commit p o).PacketSound D p x.1 x.2)
    (queued : ∀ f ∈ o.queued, (s.commit p o).FinalSound D f) :
    Sound D (s.commit p o) := by
  have grows := grows_commit settled
  refine ⟨fun q hq => ?_, fun q hq => ?_, fun a b packet h => ?_, fun f hf => ?_⟩
  · by_cases same : q = p
    · exact same ▸ sender
    · have service := commit_service_of_ne (s := s) (o := o) same
      exact (sound.sender q hq).frame grows (by rw [service]) (by rw [service])
        (by rw [service]) (by rw [service]) rfl
  · by_cases same : q = p
    · exact same ▸ receiver
    · have service := commit_service_of_ne (s := s) (o := o) same
      refine (sound.receiver q hq).frame grows (by rw [service]) (by rw [service])
        (commit_delivered_of_ne same) ?_
      have none : (o.accepted.map fun x => (⟨p, x.1, x.2⟩ : Acceptance Host)).filter
          (fun x => x.host = q) = [] := by
        rw [List.filter_eq_nil_iff]
        intro x hx
        obtain ⟨y, _, rfl⟩ := List.mem_map.mp hx
        simpa using Ne.symm same
      rw [commit_accepted, List.filter_append, none, List.append_nil]
  · rcases mem_channel_commit.mp h with old | ⟨rfl, new⟩
    · obtain ⟨ha, hb, holds⟩ := sound.packets a b packet old
      exact ⟨ha, hb, holds.mono grows⟩
    · exact ⟨mem, sent _ new⟩
  · rcases List.mem_append.mp hf with old | new
    · exact (sound.finalSound f old).mono grows
    · exact queued f new

/-- A handler that queues no final number. -/
theorem Sound.commit_of_no_final (sound : Sound D s) {p : Host} (mem : p ∈ D.hostnames)
    {o : Outcome Host} (settled : ∀ id, s.Settled p id → (s.commit p o).Settled p id)
    (sender : (s.commit p o).SenderSound D p) (receiver : (s.commit p o).ReceiverSound D p)
    (sent : ∀ x ∈ o.sent, x.1 ∈ D.hostnames ∧ (s.commit p o).PacketSound D p x.1 x.2)
    (queued : o.queued = []) : Sound D (s.commit p o) :=
  sound.commit mem settled sender receiver sent (by simp [queued])

/-! ### `processDataMsg` -/

/-- What a host accepted and no longer has pending is settled there. -/
theorem ReceiverSound.settled_of_accepted {p : Host} (h : s.ReceiverSound D p)
    {id : MsgIdentifier} {a : UInt32} (accepted : s.Accepted p id a)
    (gone : id ∉ (s.service p).holdBackQueue.pendingMsgSet) : s.Settled p id := by
  rcases h.unsettled id a accepted with settled | ⟨pending, _⟩
  · exact settled
  · exact (gone pending).elim

/-- The outcome of `processDataMsg` on a message that is new to the queue. -/
def acceptance (s : System Host) (D : Deployment Host) (p src : Host) (m : DataMessage) :
    Outcome Host where
  service := (s.service p).accept D p m
  sent := [(src, .ack ((s.service p).newAck D p m))]
  accepted := [(m.ident, (s.service p).latestSeqId + 1)]

theorem accepted_acceptance {p src : Host} {m : DataMessage} {q : Host} {id : MsgIdentifier}
    {a : UInt32} :
    (s.commit p (s.acceptance D p src m)).Accepted q id a ↔
      s.Accepted q id a ∨ q = p ∧ id = m.ident ∧ a = (s.service p).latestSeqId + 1 := by
  simp [Accepted, acceptance]

theorem settled_acceptance {p src : Host} {m : DataMessage} {id : MsgIdentifier}
    (settled : s.Settled p id) : (s.commit p (s.acceptance D p src m)).Settled p id := by
  rcases settled with ⟨d, hd, same⟩ | ⟨e, he, same, deliverable⟩
  · exact Or.inl ⟨d, by simp [acceptance, hd], same⟩
  · exact Or.inr ⟨e, by simp [acceptance, MulticastService.accept, he], same, deliverable⟩

theorem ReceiverSound.acceptance {p src : Host} (h : s.ReceiverSound D p) {m : DataMessage}
    (genuine : s.Genuine D m) (new : m.ident ∉ (s.service p).holdBackQueue.pendingMsgSet) :
    (s.commit p (s.acceptance D p src m)).ReceiverSound D p := by
  set t := s.commit p (s.acceptance D p src m) with ht
  have service : t.service p = (s.service p).accept D p m := by
    rw [ht, commit_service_self]
    rfl
  have delivered : t.delivered p = s.delivered p := by simp [ht, System.acceptance]
  have grows : Grows s t := grows_commit fun id => settled_acceptance
  have added : t.Accepted p m.ident ((s.service p).latestSeqId + 1) :=
    accepted_acceptance.mpr (Or.inr ⟨rfl, rfl, rfl⟩)
  refine ⟨?_, ?_, ?_, ?_, ?_, ?_, ?_, ?_, ?_⟩
  · rw [service]
    intro id mem
    rcases Finset.mem_insert.mp mem with rfl | old
    · exact ⟨_, added⟩
    · obtain ⟨a, accepted⟩ := h.pending id old
      exact ⟨a, grows.accepted _ accepted⟩
  · rw [service]
    intro e mem
    rcases List.mem_append.mp mem with old | fresh
    · exact (h.genuine e old).mono grows
    · rw [List.mem_singleton] at fresh
      subst fresh
      exact genuine.mono grows
  · rw [service]
    intro e mem deliverable
    rcases List.mem_append.mp mem with old | fresh
    · obtain ⟨f, hf, rest⟩ := h.final e old deliverable
      exact ⟨f, grows.finals f hf, rest⟩
    · rw [List.mem_singleton] at fresh
      subst fresh
      cases deliverable
  · rw [service]
    intro e mem undeliverable
    rcases List.mem_append.mp mem with old | fresh
    · obtain ⟨accepted, proposer⟩ := h.proposal e old undeliverable
      exact ⟨grows.accepted _ accepted, proposer⟩
    · rw [List.mem_singleton] at fresh
      subst fresh
      exact ⟨added, rfl⟩
  · rw [delivered]
    intro d mem
    obtain ⟨genuine, f, hf, same⟩ := h.delivered d mem
    exact ⟨genuine.mono grows, f, grows.finals f hf, same⟩
  · rw [service]
    intro id a accepted
    by_cases before : ∃ b, s.Accepted p id b
    · obtain ⟨b, earlier⟩ := before
      by_cases gone : id ∈ (s.service p).holdBackQueue.pendingMsgSet
      · -- a pending message is not accepted again
        have old : ∀ b, t.Accepted p id b → s.Accepted p id b := by
          intro b hb
          rcases accepted_acceptance.mp hb with old | ⟨_, rfl, _⟩
          · exact old
          · exact (new gone).elim
        rcases h.unsettled id a (old a accepted) with settled | ⟨_, ⟨e, he, rest⟩, only⟩
        · exact Or.inl (grows.settled p id settled)
        · exact Or.inr ⟨Finset.mem_insert_of_mem gone, ⟨e, List.mem_append_left _ he, rest⟩,
            fun b hb => only b (old b hb)⟩
      · exact Or.inl (grows.settled p id (h.settled_of_accepted earlier gone))
    · have fresh : ∀ b, t.Accepted p id b →
          id = m.ident ∧ b = (s.service p).latestSeqId + 1 := by
        intro b hb
        rcases accepted_acceptance.mp hb with old | ⟨_, same⟩
        · exact (before ⟨b, old⟩).elim
        · exact same
      obtain ⟨rfl, rfl⟩ := fresh a accepted
      exact Or.inr ⟨Finset.mem_insert_self _ _,
        ⟨_, List.mem_append_right _ (List.mem_singleton.mpr rfl), rfl, rfl, rfl⟩,
        fun b hb => (fresh b hb).2⟩
  · rw [service]
    intro id ack found
    by_cases same : id = m.ident
    · subst same
      simp only [MulticastService.accept, Function.update_self, Option.some.injEq] at found
      subst found
      exact ⟨rfl, rfl, added⟩
    · simp only [MulticastService.accept, Function.update_of_ne same] at found
      obtain ⟨eq, proposer, accepted⟩ := h.cached id ack found
      exact ⟨eq, proposer, grows.accepted _ accepted⟩
  · rw [service]
    intro e rest split
    simp only [MulticastService.accept] at split
    cases deque : (s.service p).holdBackQueue.deque with
    | nil =>
        rw [deque] at split
        cases split
        rfl
    | cons front later =>
        rw [deque] at split
        cases split
        exact h.front _ _ deque
  · have idents : t.acceptedIdents p = s.acceptedIdents p ++ [m.ident] := by
      simp [acceptedIdents, ht, System.acceptance]
    rw [service, delivered, idents]
    simp only [MulticastService.accept, List.map_append, ← List.append_assoc]
    exact h.balance.append_right _

theorem Sound.processDataMsg (sound : Sound D s) {src dst : Host} (hsrc : src ∈ D.hostnames)
    (hdst : dst ∈ D.hostnames) {m : DataMessage} (packet : s.PacketSound D src dst (.data m))
    {o : Outcome Host} (handled : (s.service dst).processDataMsg D dst m = some o) :
    Sound D (s.commit dst o) := by
  have sender := (sound.sender src hsrc).own m packet
  have known := Hostfile.recipientIdMap_of_eq hsrc sender
  have receiver := sound.receiver dst hdst
  by_cases pending : m.ident ∈ (s.service dst).holdBackQueue.pendingMsgSet
  · rw [MulticastService.processDataMsg_of_pending known pending, Option.map_eq_some_iff] at handled
    obtain ⟨ack, cached, rfl⟩ := handled
    obtain ⟨same, proposer, accepted⟩ := receiver.cached _ ack cached
    simp only [AckMessage.ident, DataMessage.ident, MsgIdentifier.mk.injEq] at same
    have settled : ∀ id, s.Settled dst id →
        (s.commit dst ⟨s.service dst, [(src, .ack ack)], [], [], []⟩).Settled dst id :=
      fun id h => (settled_congr (by simp) (by simp)).mpr h
    have grows := grows_commit settled
    refine sound.commit_of_no_final hdst settled ?_ ?_ ?_ rfl
    · exact (sound.sender dst hdst).frame grows (by simp) (by simp) (by simp) (by simp) rfl
    · exact receiver.frame grows (by simp) (by simp) (by simp) (by simp)
    · intro x hx
      rw [List.mem_singleton] at hx
      subst hx
      refine ⟨hsrc, proposer, same.2.trans sender, grows.accepted _ ?_⟩
      rw [AckMessage.ident, same.1, same.2]
      exact accepted
  · rw [MulticastService.processDataMsg_of_new known pending, Option.some.injEq] at handled
    subst handled
    have grows : Grows s (s.commit dst (s.acceptance D dst src m)) :=
      grows_commit fun id => settled_acceptance
    refine sound.commit_of_no_final hdst (o := s.acceptance D dst src m)
      (fun id => settled_acceptance) ?_
      (receiver.acceptance (Genuine.of_mem sound hsrc packet) pending) ?_ rfl
    · have service : (s.commit dst (s.acceptance D dst src m)).service dst =
          (s.service dst).accept D dst m := commit_service_self
      refine (sound.sender dst hdst).frame grows ?_ ?_ ?_ ?_ rfl
      all_goals rw [service]; rfl
    · intro x hx
      simp only [System.acceptance, List.mem_singleton] at hx
      subst hx
      exact ⟨hsrc, rfl, sender, accepted_acceptance.mpr (Or.inr ⟨rfl, rfl, rfl⟩)⟩

/-! ### `processAckMsg` -/

/-- A handler that leaves the receiver's data and the callback alone. -/
theorem settled_of_queue {p : Host} {o : Outcome Host}
    (queue : o.service.holdBackQueue = (s.service p).holdBackQueue)
    (delivered : o.delivered = []) (id : MsgIdentifier) (settled : s.Settled p id) :
    (s.commit p o).Settled p id :=
  (settled_congr (by rw [commit_service_self, queue])
    (by rw [commit_delivered_self, delivered, List.append_nil])).mpr settled

theorem SenderSound.removeRecipient {p : Host} (h : s.SenderSound D p) (id : UInt32) (r : Host) :
    ∀ holder ∈ ((s.service p).dataMsgSender.removeRecipient id r).2.msgList,
      holder.orgMsg ∈ s.multicasts p ∧ ∀ r ∈ holder.recipients, r ∈ D.hostnames := by
  intro holder mem
  obtain ⟨g, old, same, sub⟩ := ContinuousMsgSender.orgMsg_removeRecipient _ id r holder mem
  obtain ⟨multicast, within⟩ := h.dataHeld g old
  exact ⟨same ▸ multicast, fun r hr => within r (sub hr)⟩

/-- The proposals once an answer has been counted are those of hosts that have accepted. -/
theorem SenderSound.proposalsWith {p src : Host} (h : s.SenderSound D p) (hsrc : src ∈ D.hostnames)
    {m : AckMessage} (packet : s.PacketSound D src p (.ack m)) {j a : UInt32}
    (entry : ((s.service p).proposalsWith m).lookup j = some a) :
    ∃ r ∈ D.hostnames, D.processIdentifier r = j ∧
      s.Accepted r ⟨m.msgId, D.processIdentifier p⟩ a := by
  obtain ⟨proposer, sender, accepted⟩ := packet
  by_cases new : j = m.proposer
  · subst new
    rw [MulticastService.proposalsWith, AList.lookup_insert, Option.some.injEq] at entry
    subst entry
    exact ⟨src, hsrc, proposer.symm, sender ▸ accepted⟩
  · rw [MulticastService.proposalsWith, AList.lookup_insert_ne new] at entry
    cases known : (s.service p).proposedSeqIdMap m.msgId with
    | none =>
        rw [known] at entry
        cases entry
    | some ids =>
        rw [known] at entry
        exact h.proposed _ ids j a known entry

/-- A sender that has counted an answer. -/
theorem SenderSound.count {p src : Host} (h : s.SenderSound D p) (hsrc : src ∈ D.hostnames)
    {m : AckMessage} (packet : s.PacketSound D src p (.ack m)) (grows : Grows s s')
    (multicasts : s'.multicasts p = s.multicasts p)
    (msgId : (s'.service p).msgId = (s.service p).msgId)
    (data : (s'.service p).dataMsgSender =
      ((s.service p).dataMsgSender.removeRecipient m.msgId src).2)
    (proposals : (s'.service p).proposedSeqIdMap = Function.update (s.service p).proposedSeqIdMap
      m.msgId (some ((s.service p).proposalsWith m)))
    (seqHeld : ∀ g ∈ (s'.service p).seqMsgSender.msgList,
      (g.orgMsg ∈ s'.finals ∧ g.orgMsg.sender = D.processIdentifier p) ∧
        ∀ r ∈ g.recipients, r ∈ D.hostnames) : s'.SenderSound D p := by
  refine ⟨?_, ?_, ?_, ?_, seqHeld⟩
  · rw [multicasts]
    exact h.own
  · rw [multicasts, msgId]
    exact h.counted
  · rw [data, multicasts]
    exact h.removeRecipient m.msgId src
  · rw [proposals]
    intro k ids j a found entry
    by_cases same : k = m.msgId
    · subst same
      rw [Function.update_self, Option.some.injEq] at found
      subst found
      obtain ⟨r, hr, id, accepted⟩ := h.proposalsWith hsrc packet entry
      exact ⟨r, hr, id, grows.accepted _ accepted⟩
    · rw [Function.update_of_ne same] at found
      obtain ⟨r, hr, id, accepted⟩ := h.proposed k ids j a found entry
      exact ⟨r, hr, id, grows.accepted _ accepted⟩

/-- Once the proposals are complete, there is one of every host. -/
theorem SenderSound.exists_proposal {p src : Host} (h : s.SenderSound D p)
    (hsrc : src ∈ D.hostnames) {m : AckMessage} (packet : s.PacketSound D src p (.ack m))
    (complete : ((s.service p).proposalsWith m).entries.length = D.hostnames.length) {r : Host}
    (hr : r ∈ D.hostnames) :
    ∃ a, ((s.service p).proposalsWith m).lookup (D.processIdentifier r) = some a := by
  have hosts : ∀ j ∈ (s.service p).proposalsWith m,
      ∃ r ∈ D.hostnames, D.processIdentifier r = j := by
    intro j mem
    obtain ⟨a, entry⟩ := Option.isSome_iff_exists.mp (AList.lookup_isSome.mpr mem)
    obtain ⟨r, hr, id, _⟩ := h.proposalsWith hsrc packet entry
    exact ⟨r, hr, id⟩
  have mem := (ProposedSeqIds.complete_iff hosts).mp complete r hr
  exact Option.isSome_iff_exists.mp (AList.lookup_isSome.mpr mem)

/-- The number that the last answer fixes is backed by the proposals. -/
theorem SenderSound.finalSound {p src : Host} (h : s.SenderSound D p) (hp : p ∈ D.hostnames)
    (hsrc : src ∈ D.hostnames) {m : AckMessage} (packet : s.PacketSound D src p (.ack m))
    (owed : (s.service p).dataMsgSender.Owes m.msgId src)
    (complete : ((s.service p).proposalsWith m).entries.length = D.hostnames.length)
    {f : SeqMessage}
    (created : MulticastService.createSeqMessage m ((s.service p).proposalsWith m) = some f) :
    f.ident = m.ident ∧ f.sender = D.processIdentifier p ∧ s.FinalSound D f := by
  obtain ⟨fsender, fmsgId, chosen, bound⟩ := MulticastService.createSeqMessage_spec created
  have sender : f.sender = D.processIdentifier p := fsender.trans packet.2.1
  have ident : f.ident = ⟨m.msgId, D.processIdentifier p⟩ := by
    rw [SeqMessage.ident, fmsgId, sender]
  refine ⟨by rw [SeqMessage.ident, AckMessage.ident, fsender, fmsgId], sender, ?_, ?_, ?_⟩
  · obtain ⟨holder, held, same, _⟩ := owed
    have multicast := (h.dataHeld holder held).1
    refine ⟨p, hp, sender, holder.orgMsg, multicast, ?_⟩
    rw [ident, DataMessage.ident, h.own _ multicast, ← same, DataMessage.hasMsgId]
  · obtain ⟨r, hr, id, accepted⟩ := h.proposalsWith hsrc packet chosen
    exact ⟨r, hr, id, ident ▸ accepted⟩
  · intro r hr
    obtain ⟨a, entry⟩ := h.exists_proposal hsrc packet complete hr
    obtain ⟨r', hr', id, accepted⟩ := h.proposalsWith hsrc packet entry
    rw [Hostfile.processIdentifier_inj hr' hr id] at accepted
    exact ⟨a, ident ▸ accepted, bound _ _ entry⟩

/-- An answer that is not the last one is counted. -/
theorem Sound.countIncomplete (sound : Sound D s) {src dst : Host} (hsrc : src ∈ D.hostnames)
    (hdst : dst ∈ D.hostnames) {m : AckMessage} (packet : s.PacketSound D src dst (.ack m)) :
    Sound D (s.commit dst { service := (s.service dst).count m src }) := by
  have own := sound.sender dst hdst
  set t := s.commit dst ⟨(s.service dst).count m src, [], [], [], []⟩ with ht
  have atSelf : t.service dst = (s.service dst).count m src := commit_service_self
  have settled : ∀ id, s.Settled dst id → t.Settled dst id := settled_of_queue rfl rfl
  have grows : Grows s t := grows_commit settled
  have finals : t.finals = s.finals := by simp [ht]
  refine sound.commit_of_no_final hdst settled ?_ ?_ (by simp) rfl
  · refine own.count hsrc packet grows rfl (by rw [atSelf]; rfl) (by rw [atSelf]; rfl)
      (by rw [atSelf]; rfl) ?_
    rw [atSelf, finals]
    exact own.seqHeld
  · exact (sound.receiver dst hdst).frame grows (by rw [atSelf]; rfl) (by rw [atSelf]; rfl)
      (by simp) (by simp)

/-- The last answer fixes the final number and queues the `SeqMessage`. -/
theorem Sound.countComplete (sound : Sound D s) {src dst : Host} (hsrc : src ∈ D.hostnames)
    (hdst : dst ∈ D.hostnames) {m : AckMessage} (packet : s.PacketSound D src dst (.ack m))
    (owed : (s.service dst).dataMsgSender.Owes m.msgId src)
    (complete : ((s.service dst).proposalsWith m).entries.length = D.hostnames.length)
    {f : SeqMessage}
    (created : MulticastService.createSeqMessage m ((s.service dst).proposalsWith m) = some f) :
    Sound D (s.commit dst
      { service :=
          { (s.service dst).count m src with
            seqMsgSender := (s.service dst).seqMsgSender.queueMsg D.hostnames f }
        queued := [f] }) := by
  have own := sound.sender dst hdst
  obtain ⟨_, sender, final⟩ := own.finalSound hdst hsrc packet owed complete created
  set service : MulticastService Host := { (s.service dst).count m src with
    seqMsgSender := (s.service dst).seqMsgSender.queueMsg D.hostnames f } with hservice
  set t := s.commit dst ⟨service, [], [], [], [f]⟩ with ht
  have atSelf : t.service dst = service := commit_service_self
  have settled : ∀ id, s.Settled dst id → t.Settled dst id := settled_of_queue rfl rfl
  have grows : Grows s t := grows_commit settled
  have finals : t.finals = s.finals ++ [f] := rfl
  refine sound.commit hdst settled ?_ ?_ (by simp) ?_
  · refine own.count hsrc packet grows rfl (by rw [atSelf]; rfl) (by rw [atSelf]; rfl)
      (by rw [atSelf]; rfl) ?_
    rw [atSelf, finals]
    intro h mem
    rcases List.mem_append.mp mem with old | new
    · obtain ⟨⟨hf, id⟩, within⟩ := own.seqHeld h old
      exact ⟨⟨List.mem_append_left _ hf, id⟩, within⟩
    · rw [List.mem_singleton] at new
      subst new
      exact ⟨⟨by simp, sender⟩, fun r hr => List.mem_toFinset.mp hr⟩
  · exact (sound.receiver dst hdst).frame grows (by rw [atSelf]; rfl) (by rw [atSelf]; rfl)
      (by simp) (by simp)
  · intro g hg
    rw [List.mem_singleton] at hg
    subst hg
    exact final.mono grows

/-- A handler that changes nothing but the senders. -/
theorem Sound.senders (sound : Sound D s) {p : Host} (hp : p ∈ D.hostnames)
    {service : MulticastService Host} (msgId : service.msgId = (s.service p).msgId)
    (proposals : service.proposedSeqIdMap = (s.service p).proposedSeqIdMap)
    (queue : service.holdBackQueue = (s.service p).holdBackQueue)
    (cache : service.ackMessageCache = (s.service p).ackMessageCache)
    (dataHeld : ∀ h ∈ service.dataMsgSender.msgList,
      h.orgMsg ∈ s.multicasts p ∧ ∀ r ∈ h.recipients, r ∈ D.hostnames)
    (seqHeld : ∀ h ∈ service.seqMsgSender.msgList,
      (h.orgMsg ∈ s.finals ∧ h.orgMsg.sender = D.processIdentifier p) ∧
        ∀ r ∈ h.recipients, r ∈ D.hostnames) : Sound D (s.commit p { service := service }) := by
  have own := sound.sender p hp
  set t := s.commit p ⟨service, [], [], [], []⟩ with ht
  have atSelf : t.service p = service := commit_service_self
  have finals : t.finals = s.finals := by simp [ht]
  have settled : ∀ id, s.Settled p id → t.Settled p id := settled_of_queue queue rfl
  have grows : Grows s t := grows_commit settled
  refine sound.commit_of_no_final hp settled ⟨own.own, ?_, ?_, ?_, ?_⟩ ?_ (by simp) rfl
  · rw [atSelf, msgId]
    exact own.counted
  · rw [atSelf]
    exact dataHeld
  · rw [atSelf, proposals]
    intro k ids j a found entry
    obtain ⟨r, hr, id, accepted⟩ := own.proposed k ids j a found entry
    exact ⟨r, hr, id, grows.accepted _ accepted⟩
  · rw [atSelf, finals]
    exact seqHeld
  · exact (sound.receiver p hp).frame grows (by rw [atSelf, queue]) (by rw [atSelf, cache])
      (by simp) (by simp)

theorem Sound.processAckMsg (sound : Sound D s) {src dst : Host} (hsrc : src ∈ D.hostnames)
    (hdst : dst ∈ D.hostnames) {m : AckMessage} (packet : s.PacketSound D src dst (.ack m))
    {o : Outcome Host} (handled : (s.service dst).processAckMsg D m = some o) :
    Sound D (s.commit dst o) := by
  have known := Hostfile.recipientIdMap_of_eq hsrc packet.1
  have own := sound.sender dst hdst
  rcases (s.service dst).processAckMsg_cases known with
    ⟨_, eq⟩ | ⟨removed, ⟨_, eq⟩ | ⟨complete, f, created, eq⟩⟩ <;>
    rw [eq, Option.some.injEq] at handled <;> subst handled
  · exact sound.senders hdst rfl rfl rfl rfl (own.removeRecipient m.msgId src) own.seqHeld
  · exact sound.countIncomplete hsrc hdst packet
  · exact sound.countComplete hsrc hdst packet (ContinuousMsgSender.owes_of_removed removed)
      complete created

/-! ### `processSeqMsg` -/

/-- The outcome of `processSeqMsg`. -/
def finishing (s : System Host) (D : Deployment Host) (p src : Host) (m : SeqMessage) :
    Outcome Host where
  service := (s.service p).finish D m
  sent := [(src, .seqAck (MulticastService.createSeqAckMessage D p m))]
  delivered := ((s.service p).holdBackQueue.markDeliverable D.sort m).delivered

/-- The sorted deque at `p` in the middle of `markDeliverable m`. -/
def sortedAt (s : System Host) (D : Deployment Host) (p : Host) (m : SeqMessage) :
    List PendingMsg :=
  HoldBackQueue.sortedDeque D.sort (s.service p).holdBackQueue m

section Finishing

variable {p src : Host} {m : SeqMessage}

/-- A final number for a message that is not pending delivers nothing and leaves the queue as
it was. -/
theorem queue_finishing_of_notMem (D : Deployment Host) (src : Host)
    (gone : m.ident ∉ (s.service p).holdBackQueue.pendingMsgSet) :
    ((s.commit p (s.finishing D p src m)).service p).holdBackQueue =
        (s.service p).holdBackQueue ∧
      (s.commit p (s.finishing D p src m)).delivered p = s.delivered p := by
  simp [finishing, MulticastService.finish, HoldBackQueue.markDeliverable_of_notMem _ gone]

/-- A final number for a pending message splits the sorted deque in two. -/
theorem queue_finishing_of_mem (D : Deployment Host) (src : Host)
    (pending : m.ident ∈ (s.service p).holdBackQueue.pendingMsgSet) :
    ((s.commit p (s.finishing D p src m)).service p).holdBackQueue.deque =
        (s.sortedAt D p m).dropWhile (·.deliverable) ∧
      (s.commit p (s.finishing D p src m)).delivered p =
        s.delivered p ++ ((s.sortedAt D p m).takeWhile (·.deliverable)).map (·.dataMsg) ∧
      ∀ id, id ≠ m.ident → id ∈ (s.service p).holdBackQueue.pendingMsgSet →
        id ∈ ((s.commit p (s.finishing D p src m)).service p).holdBackQueue.pendingMsgSet := by
  simp only [commit_service_self, commit_delivered_self, finishing, MulticastService.finish,
    HoldBackQueue.markDeliverable_of_mem pending]
  refine ⟨rfl, rfl, fun id ne mem => ?_⟩
  split
  · exact mem
  · exact Finset.mem_erase.mpr ⟨ne, mem⟩

theorem pendingMsgSet_finishing :
    ((s.commit p (s.finishing D p src m)).service p).holdBackQueue.pendingMsgSet ⊆
      (s.service p).holdBackQueue.pendingMsgSet := by
  by_cases pending : m.ident ∈ (s.service p).holdBackQueue.pendingMsgSet
  · simp only [commit_service_self, finishing, MulticastService.finish,
      HoldBackQueue.markDeliverable_of_mem pending]
    split
    · exact Finset.Subset.refl _
    · exact Finset.erase_subset _ _
  · rw [(queue_finishing_of_notMem D src pending).1]

/-- Every entry of the sorted deque has been delivered or is still in the deque. -/
theorem mem_finishing (src : Host)
    (pending : m.ident ∈ (s.service p).holdBackQueue.pendingMsgSet)
    {e : PendingMsg} (mem : e ∈ s.sortedAt D p m) :
    (e.deliverable = true ∧ e.dataMsg ∈ (s.commit p (s.finishing D p src m)).delivered p) ∨
      e ∈ ((s.commit p (s.finishing D p src m)).service p).holdBackQueue.deque := by
  obtain ⟨deque, delivered, _⟩ := queue_finishing_of_mem D src pending
  rw [deque, delivered]
  rw [← List.takeWhile_append_dropWhile (p := fun e : PendingMsg => e.deliverable)
    (l := s.sortedAt D p m), List.mem_append] at mem
  rcases mem with front | back
  · exact Or.inl ⟨List.mem_takeWhile_imp front,
      List.mem_append_right _ (List.mem_map_of_mem front)⟩
  · exact Or.inr back

theorem settled_finishing {id : MsgIdentifier} (settled : s.Settled p id) :
    (s.commit p (s.finishing D p src m)).Settled p id := by
  by_cases pending : m.ident ∈ (s.service p).holdBackQueue.pendingMsgSet
  · rcases settled with ⟨d, hd, same⟩ | ⟨e, he, same, deliverable⟩
    · refine Or.inl ⟨d, ?_, same⟩
      rw [(queue_finishing_of_mem D src pending).2.1]
      exact List.mem_append_left _ hd
    · obtain ⟨e', mem, same', deliverable'⟩ :=
        HoldBackQueue.deliverable_sortedDeque D.sort m he deliverable
      rcases mem_finishing src pending mem with ⟨_, out⟩ | still
      · exact Or.inl ⟨_, out, same'.trans same⟩
      · exact Or.inr ⟨e', still, same'.trans same, deliverable'⟩
  · obtain ⟨queue, delivered⟩ := queue_finishing_of_notMem D src pending
    exact (settled_congr queue delivered).mpr settled

/-- After a final number has been handled, its message is settled. -/
theorem ReceiverSound.settled_of_finishing (src : Host) (h : s.ReceiverSound D p) {a : UInt32}
    (accepted : s.Accepted p m.ident a) :
    (s.commit p (s.finishing D p src m)).Settled p m.ident := by
  rcases h.unsettled _ a accepted with settled | ⟨pending, ⟨e, he, same, _⟩, _⟩
  · exact settled_finishing settled
  · obtain ⟨_, e', mem, same', deliverable⟩ :=
      HoldBackQueue.marked_of_mem D.sort he same
    rcases mem_finishing src pending mem with ⟨_, out⟩ | still
    · exact Or.inl ⟨_, out, same'⟩
    · exact Or.inr ⟨e', still, same', deliverable⟩

/-- The entries of the sorted deque are as sound as those of the deque. -/
theorem ReceiverSound.sortedAt (h : s.ReceiverSound D p) (final : m ∈ s.finals) {e : PendingMsg}
    (mem : e ∈ s.sortedAt D p m) :
    s.Genuine D e.dataMsg ∧
      (e.deliverable = true → ∃ f ∈ s.finals, f.ident = e.ident ∧ f.finalSeq = e.finalSeqId ∧
        f.finalSeqProposer = e.finalSeqProposer) ∧
      (e.deliverable = false → e ∈ (s.service p).holdBackQueue.deque) := by
  rcases HoldBackQueue.mem_sortedDeque mem with old | ⟨e', he', same, rfl⟩
  · exact ⟨h.genuine e old, h.final e old, fun _ => old⟩
  · refine ⟨h.genuine e' he', fun _ => ⟨m, final, same.symm, rfl, rfl⟩, fun undeliverable => ?_⟩
    cases undeliverable

theorem ReceiverSound.finishing (h : s.ReceiverSound D p) (final : m ∈ s.finals) {a : UInt32}
    (accepted : s.Accepted p m.ident a) :
    (s.commit p (s.finishing D p src m)).ReceiverSound D p := by
  set t := s.commit p (s.finishing D p src m) with ht
  have grows : Grows s t := grows_commit fun id => settled_finishing
  have log : t.accepted = s.accepted := by simp [ht, System.finishing]
  have idents : t.acceptedIdents p = s.acceptedIdents p := by
    rw [acceptedIdents, acceptedIdents, log]
  have cache : ∀ id ack, (t.service p).ackMessageCache id = some ack →
      (s.service p).ackMessageCache id = some ack := by
    intro id ack found
    rw [ht, commit_service_self] at found
    by_cases same : id = m.ident
    · simp [System.finishing, MulticastService.finish, same] at found
    · simpa [System.finishing, MulticastService.finish, same] using found
  have cached : ∀ id ack, (t.service p).ackMessageCache id = some ack →
      ack.ident = id ∧ ack.proposer = D.processIdentifier p ∧ t.Accepted p id ack.proposedSeq := by
    intro id ack found
    obtain ⟨same, proposer, accepted⟩ := h.cached id ack (cache id ack found)
    exact ⟨same, proposer, grows.accepted _ accepted⟩
  by_cases pending : m.ident ∈ (s.service p).holdBackQueue.pendingMsgSet
  · obtain ⟨deque, delivered, kept⟩ := queue_finishing_of_mem D src pending
    rw [← ht] at deque delivered kept
    have within : ∀ e ∈ (t.service p).holdBackQueue.deque, e ∈ s.sortedAt D p m := by
      rw [deque]
      exact fun e mem => (List.dropWhile_suffix _).subset mem
    refine ⟨?_, ?_, ?_, ?_, ?_, ?_, cached, ?_, ?_⟩
    · intro id mem
      obtain ⟨b, hb⟩ := h.pending id (pendingMsgSet_finishing mem)
      exact ⟨b, grows.accepted _ hb⟩
    · exact fun e mem => (h.sortedAt final (within e mem)).1.mono grows
    · intro e mem deliverable
      obtain ⟨f, hf, rest⟩ := (h.sortedAt final (within e mem)).2.1 deliverable
      exact ⟨f, grows.finals f hf, rest⟩
    · intro e mem undeliverable
      obtain ⟨hb, proposer⟩ := h.proposal e
        ((h.sortedAt final (within e mem)).2.2 undeliverable) undeliverable
      exact ⟨grows.accepted _ hb, proposer⟩
    · rw [delivered]
      intro d hd
      rcases List.mem_append.mp hd with old | new
      · obtain ⟨genuine, f, hf, same⟩ := h.delivered d old
        exact ⟨genuine.mono grows, f, grows.finals f hf, same⟩
      · obtain ⟨e, mem, rfl⟩ := List.mem_map.mp new
        obtain ⟨genuine, finalOf, _⟩ := h.sortedAt final ((List.takeWhile_prefix _).subset mem)
        obtain ⟨f, hf, same, _⟩ := finalOf (List.mem_takeWhile_imp mem)
        exact ⟨genuine.mono grows, f, grows.finals f hf, same⟩
    · intro id b hb
      have before : s.Accepted p id b := by rwa [Accepted, log] at hb
      by_cases same : id = m.ident
      · rw [same]
        exact Or.inl (h.settled_of_finishing src accepted)
      · rcases h.unsettled id b before with settled | ⟨mem, ⟨e, he, rest⟩, only⟩
        · exact Or.inl (settled_finishing settled)
        · refine Or.inr ⟨kept id same mem, ⟨e, ?_, rest⟩, fun b' hb' => only b' ?_⟩
          · have stays : e ∈ s.sortedAt D p m :=
              HoldBackQueue.mem_sortedDeque_of_ne he (rest.1 ▸ same)
            rcases mem_finishing src pending stays with
              ⟨deliverable, _⟩ | still
            · rw [rest.2.1] at deliverable
              cases deliverable
            · exact still
          · rwa [Accepted, log] at hb'
    · intro e rest split
      rw [deque] at split
      exact HoldBackQueue.front_undeliverable split
    · rw [idents, deque, delivered, List.map_append, List.append_assoc, List.map_map]
      have parts : (((s.sortedAt D p m).takeWhile (·.deliverable)).map
          ((·.ident) ∘ (·.dataMsg)) ++ ((s.sortedAt D p m).dropWhile (·.deliverable)).map
            (·.ident)) = (s.sortedAt D p m).map (·.ident) := by
        show ((s.sortedAt D p m).takeWhile (·.deliverable)).map (·.ident) ++ _ = _
        rw [← List.map_append, List.takeWhile_append_dropWhile]
      rw [parts]
      exact ((HoldBackQueue.map_ident_sortedDeque _ _ _).append_left _).trans h.balance
  · obtain ⟨queue, delivered⟩ := queue_finishing_of_notMem D src pending
    rw [← ht] at queue delivered
    have same : ∀ id b, t.Accepted p id b → s.Accepted p id b := by
      intro id b hb
      rwa [Accepted, log] at hb
    refine ⟨?_, ?_, ?_, ?_, ?_, ?_, cached, ?_, ?_⟩
    · rw [queue]
      intro id mem
      obtain ⟨b, hb⟩ := h.pending id mem
      exact ⟨b, grows.accepted _ hb⟩
    · rw [queue]
      exact fun e mem => (h.genuine e mem).mono grows
    · rw [queue]
      intro e mem deliverable
      obtain ⟨f, hf, rest⟩ := h.final e mem deliverable
      exact ⟨f, grows.finals f hf, rest⟩
    · rw [queue]
      intro e mem undeliverable
      obtain ⟨hb, proposer⟩ := h.proposal e mem undeliverable
      exact ⟨grows.accepted _ hb, proposer⟩
    · rw [delivered]
      intro d mem
      obtain ⟨genuine, f, hf, eq⟩ := h.delivered d mem
      exact ⟨genuine.mono grows, f, grows.finals f hf, eq⟩
    · rw [queue]
      intro id b hb
      rcases h.unsettled id b (same id b hb) with settled | ⟨mem, entry, only⟩
      · exact Or.inl (settled_finishing settled)
      · exact Or.inr ⟨mem, entry, fun b' hb' => only b' (same id b' hb')⟩
    · rw [queue]
      exact h.front
    · rw [queue, delivered, idents]
      exact h.balance

end Finishing

theorem Sound.processSeqMsg (sound : Sound D s) {src dst : Host} (hsrc : src ∈ D.hostnames)
    (hdst : dst ∈ D.hostnames) {m : SeqMessage} (packet : s.PacketSound D src dst (.seq m))
    {o : Outcome Host} (handled : (s.service dst).processSeqMsg D dst m = some o) :
    Sound D (s.commit dst o) := by
  obtain ⟨final, sender⟩ := packet
  have known := Hostfile.recipientIdMap_of_eq hsrc sender
  rw [MulticastService.processSeqMsg_eq known, Option.some.injEq] at handled
  subst handled
  obtain ⟨a, accepted, _⟩ := sound.accepted_of_final final hdst
  have receiver := sound.receiver dst hdst
  have grows : Grows s (s.commit dst (s.finishing D dst src m)) :=
    grows_commit fun id => settled_finishing
  have service : (s.commit dst (s.finishing D dst src m)).service dst =
      (s.service dst).finish D m := commit_service_self
  refine sound.commit_of_no_final hdst (o := s.finishing D dst src m)
    (fun id => settled_finishing) ?_ (receiver.finishing final accepted) ?_ rfl
  · refine (sound.sender dst hdst).frame grows ?_ ?_ ?_ ?_ rfl
    all_goals rw [service]; rfl
  · intro x hx
    simp only [System.finishing, List.mem_singleton] at hx
    subst hx
    exact ⟨hsrc, rfl, sender, receiver.settled_of_finishing src accepted⟩

/-! ### `processSeqAckMsg` -/

theorem Sound.processSeqAckMsg (sound : Sound D s) {src dst : Host} (hsrc : src ∈ D.hostnames)
    (hdst : dst ∈ D.hostnames) {m : SeqAckMessage} (packet : s.PacketSound D src dst (.seqAck m))
    {o : Outcome Host} (handled : (s.service dst).processSeqAckMsg D m = some o) :
    Sound D (s.commit dst o) := by
  have known := Hostfile.recipientIdMap_of_eq hsrc packet.1
  rw [MulticastService.processSeqAckMsg_eq known, Option.some.injEq] at handled
  subst handled
  have own := sound.sender dst hdst
  refine sound.senders hdst rfl rfl rfl rfl own.dataHeld fun h mem => ?_
  obtain ⟨g, old, same, sub⟩ := ContinuousMsgSender.orgMsg_removeRecipient _ _ _ h mem
  obtain ⟨⟨final, id⟩, within⟩ := own.seqHeld g old
  exact ⟨same ▸ ⟨final, id⟩, fun r hr => within r (sub hr)⟩

/-! ## Every step -/

theorem sound_initial : Sound D (initial Host) := by
  refine ⟨fun p _ => ?_, fun p _ => ?_, ?_, ?_⟩
  · refine ⟨?_, ?_, ?_, ?_, ?_⟩ <;> simp [initial]
  · refine ⟨?_, ?_, ?_, ?_, ?_, ?_, ?_, ?_, ?_⟩ <;> simp [initial, Accepted, acceptedIdents]
  · simp [initial]
  · simp [initial]

theorem Sound.receive (sound : Sound D s) {src dst : Host} {i : Nat} {copy : Bool}
    (taken : s.step D (.receive src dst i copy) = some s') : Sound D s' := by
  obtain ⟨_, packet, found, ⟨o, handled, rfl⟩ | ⟨_, rfl⟩⟩ := step_receive taken
  · obtain ⟨hsrc, hdst, holds⟩ := sound.packets src dst packet (List.mem_of_getElem? found)
    have shrunk := sound.setChannel (leftover_subset (s.channel src dst) i copy)
    cases packet with
    | data m => exact shrunk.processDataMsg hsrc hdst holds handled
    | ack m => exact shrunk.processAckMsg hsrc hdst holds handled
    | seq m => exact shrunk.processSeqMsg hsrc hdst holds handled
    | seqAck m => exact shrunk.processSeqAckMsg hsrc hdst holds handled
  · exact sound.quiet ⟨rfl, rfl, rfl, rfl, rfl⟩ fun a b packet mem =>
      Or.inl (mem_channel_setChannel mem (leftover_subset _ i copy))

theorem Sound.step (sound : Sound D s) {e : Event Host} (taken : s.step D e = some s') :
    Sound D s' := by
  cases e with
  | multicast p data =>
      obtain ⟨⟨mem, _⟩, rfl⟩ := step_multicast taken
      exact sound.multicasting mem data
  | sendData p i recipient => exact sound.sendData taken
  | sendSeq p i recipient => exact sound.sendSeq taken
  | receive src dst i copy => exact sound.receive taken
  | lose src dst i => exact sound.lose taken

/-- **The invariant holds under every schedule and every network.** -/
theorem sound_of_reachable (reachable : s.Reachable D) : Sound D s :=
  reachable.invariant sound_initial fun _ _ _ sound _ taken => sound.step taken

end System

end GroupComm.Lab1
