import GroupComm.Lab1.Network

/-!
# The invariant of the multicast

What holds in every state under any network, whatever the sequence numbers and the numbers of the
messages are.

* `SenderSound`: what a host sends and the proposals that it keeps.
* `ReceiverSound`: what a host keeps of the messages of others.  A message it accepted is
  either *settled* (a final number has arrived) or waits in the deque under the only number
  the host ever proposed for it.
* `PacketSound`: what a datagram in flight says is backed by the logs.
* `FinalSound`: a final number is one of the proposals for its message and bounds one proposal
  of every host.

Everything a datagram or a list says about another host is a fact that stays true (`Grows`).  That
an identifier names one message only is not part of it: that needs a bound on the number of calls
of `multicast` (`Identifiers.lean`).
-/

namespace GroupComm.Lab1

namespace System

variable {Host : Type} [DecidableEq Host]

/-- `p` accepted the message `id` and proposed `a` for it. -/
def Accepted (s : System Host) (p : Host) (id : MsgIdentifier) (a : UInt32) : Prop :=
  ⟨p, id, a⟩ ∈ s.accepted

/-- The final number of the message `id` has arrived at `p`. -/
def Settled (s : System Host) (p : Host) (id : MsgIdentifier) : Prop :=
  (∃ m ∈ s.delivered p, m.ident = id) ∨
    ∃ e ∈ (s.service p).holdBackQueue.deque, e.ident = id ∧ e.deliverable = true

/-- The messages accepted at `p`, once for each acceptance. -/
def acceptedIdents (s : System Host) (p : Host) : List MsgIdentifier :=
  (s.accepted.filter fun x => x.host = p).map (·.ident)

/-- Nothing that was said is taken back. -/
structure Grows (s s' : System Host) : Prop where
  accepted : ∀ x ∈ s.accepted, x ∈ s'.accepted
  finals : ∀ f ∈ s.finals, f ∈ s'.finals
  multicasts : ∀ p, ∀ m ∈ s.multicasts p, m ∈ s'.multicasts p
  settled : ∀ p id, s.Settled p id → s'.Settled p id

omit [DecidableEq Host] in
theorem Grows.refl (s : System Host) : Grows s s :=
  ⟨fun _ h => h, fun _ h => h, fun _ _ h => h, fun _ _ h => h⟩

/-! ## The four parts -/

variable (D : Deployment Host)

structure SenderSound (s : System Host) (p : Host) : Prop where
  own : ∀ m ∈ s.multicasts p, m.sender = D.processIdentifier p
  counted : (s.service p).msgId.toNat ≤ (s.multicasts p).length
  dataHeld : ∀ h ∈ (s.service p).dataMsgSender.msgList,
    h.orgMsg ∈ s.multicasts p ∧ ∀ r ∈ h.recipients, r ∈ D.hostnames
  proposed : ∀ k ids j a, (s.service p).proposedSeqIdMap k = some ids → ids.lookup j = some a →
    ∃ r ∈ D.hostnames, D.processIdentifier r = j ∧ s.Accepted r ⟨k, D.processIdentifier p⟩ a
  seqHeld : ∀ h ∈ (s.service p).seqMsgSender.msgList,
    (h.orgMsg ∈ s.finals ∧ h.orgMsg.sender = D.processIdentifier p) ∧
      ∀ r ∈ h.recipients, r ∈ D.hostnames

/-- The message of `m` was multicast by the host that `m` names. -/
def Genuine (s : System Host) (m : DataMessage) : Prop :=
  ∃ q ∈ D.hostnames, D.processIdentifier q = m.sender ∧ m ∈ s.multicasts q

structure ReceiverSound (s : System Host) (p : Host) : Prop where
  pending : ∀ id ∈ (s.service p).holdBackQueue.pendingMsgSet, ∃ a, s.Accepted p id a
  genuine : ∀ e ∈ (s.service p).holdBackQueue.deque, s.Genuine D e.dataMsg
  final : ∀ e ∈ (s.service p).holdBackQueue.deque, e.deliverable = true →
    ∃ f ∈ s.finals, f.ident = e.ident ∧ f.finalSeq = e.finalSeqId ∧
      f.finalSeqProposer = e.finalSeqProposer
  proposal : ∀ e ∈ (s.service p).holdBackQueue.deque, e.deliverable = false →
    s.Accepted p e.ident e.finalSeqId ∧ e.finalSeqProposer = D.processIdentifier p
  delivered : ∀ m ∈ s.delivered p, s.Genuine D m ∧ ∃ f ∈ s.finals, f.ident = m.ident
  unsettled : ∀ id a, s.Accepted p id a → s.Settled p id ∨
    (id ∈ (s.service p).holdBackQueue.pendingMsgSet ∧
      (∃ e ∈ (s.service p).holdBackQueue.deque,
        e.ident = id ∧ e.deliverable = false ∧ e.finalSeqId = a) ∧
      ∀ a', s.Accepted p id a' → a' = a)
  cached : ∀ id ack, (s.service p).ackMessageCache id = some ack →
    ack.ident = id ∧ ack.proposer = D.processIdentifier p ∧ s.Accepted p id ack.proposedSeq
  front : ∀ e rest, (s.service p).holdBackQueue.deque = e :: rest → e.deliverable = false
  balance : ((s.delivered p).map (·.ident) ++
    (s.service p).holdBackQueue.deque.map (·.ident)).Perm (s.acceptedIdents p)

/-- What a datagram from `a` to `b` says. -/
def PacketSound (s : System Host) (a b : Host) : Packet → Prop
  | .data m => m ∈ s.multicasts a
  | .ack m => m.proposer = D.processIdentifier a ∧ m.sender = D.processIdentifier b ∧
      s.Accepted a m.ident m.proposedSeq
  | .seq m => m ∈ s.finals ∧ m.sender = D.processIdentifier a
  | .seqAck m => m.ackSender = D.processIdentifier a ∧ m.sender = D.processIdentifier b ∧
      s.Settled a m.ident

structure FinalSound (s : System Host) (f : SeqMessage) : Prop where
  multicast : ∃ p ∈ D.hostnames, f.sender = D.processIdentifier p ∧
    ∃ m ∈ s.multicasts p, m.ident = f.ident
  chosen : ∃ r ∈ D.hostnames, D.processIdentifier r = f.finalSeqProposer ∧
    s.Accepted r f.ident f.finalSeq
  dominates : ∀ r ∈ D.hostnames, ∃ a, s.Accepted r f.ident a ∧ a.toNat ≤ f.finalSeq.toNat

structure Sound (s : System Host) : Prop where
  sender : ∀ p ∈ D.hostnames, s.SenderSound D p
  receiver : ∀ p ∈ D.hostnames, s.ReceiverSound D p
  packets : ∀ a b, ∀ packet ∈ s.channel a b,
    a ∈ D.hostnames ∧ b ∈ D.hostnames ∧ s.PacketSound D a b packet
  finalSound : ∀ f ∈ s.finals, s.FinalSound D f

variable {D}

/-! ## Facts that stay true -/

theorem Genuine.mono {s s' : System Host} (grows : Grows s s') {m : DataMessage}
    (h : s.Genuine D m) : s'.Genuine D m := by
  obtain ⟨q, mem, id, multicast⟩ := h
  exact ⟨q, mem, id, grows.multicasts q m multicast⟩

theorem PacketSound.mono {s s' : System Host} (grows : Grows s s') {a b : Host} {packet : Packet}
    (h : s.PacketSound D a b packet) : s'.PacketSound D a b packet := by
  cases packet with
  | data m => exact grows.multicasts _ _ h
  | ack m => exact ⟨h.1, h.2.1, grows.accepted _ h.2.2⟩
  | seq m => exact ⟨grows.finals _ h.1, h.2⟩
  | seqAck m => exact ⟨h.1, h.2.1, grows.settled _ _ h.2.2⟩

theorem FinalSound.mono {s s' : System Host} (grows : Grows s s') {f : SeqMessage}
    (h : s.FinalSound D f) : s'.FinalSound D f where
  multicast := by
    obtain ⟨p, mem, id, m, hm, same⟩ := h.multicast
    exact ⟨p, mem, id, m, grows.multicasts p m hm, same⟩
  chosen := by
    obtain ⟨r, mem, id, accepted⟩ := h.chosen
    exact ⟨r, mem, id, grows.accepted _ accepted⟩
  dominates r mem := by
    obtain ⟨a, accepted, le⟩ := h.dominates r mem
    exact ⟨a, grows.accepted _ accepted, le⟩

/-- A host's part as a sender does not depend on what happens elsewhere. -/
theorem SenderSound.frame {s s' : System Host} {p : Host} (grows : Grows s s')
    (msgId : (s'.service p).msgId = (s.service p).msgId)
    (data : (s'.service p).dataMsgSender = (s.service p).dataMsgSender)
    (proposals : (s'.service p).proposedSeqIdMap = (s.service p).proposedSeqIdMap)
    (seq : (s'.service p).seqMsgSender = (s.service p).seqMsgSender)
    (multicasts : s'.multicasts p = s.multicasts p)
    (h : s.SenderSound D p) : s'.SenderSound D p where
  own := by
    rw [multicasts]
    exact h.own
  counted := by
    rw [multicasts, msgId]
    exact h.counted
  dataHeld := by
    rw [multicasts, data]
    exact h.dataHeld
  proposed := by
    rw [proposals]
    intro k ids j a found entry
    obtain ⟨r, mem, id, accepted⟩ := h.proposed k ids j a found entry
    exact ⟨r, mem, id, grows.accepted _ accepted⟩
  seqHeld := by
    rw [seq]
    intro g mem
    obtain ⟨⟨final, id⟩, within⟩ := h.seqHeld g mem
    exact ⟨⟨grows.finals _ final, id⟩, within⟩

theorem acceptedIdents_congr {s s' : System Host} {p : Host}
    (same : s'.accepted.filter (fun x => x.host = p) = s.accepted.filter fun x => x.host = p) :
    s'.acceptedIdents p = s.acceptedIdents p := by
  rw [acceptedIdents, acceptedIdents, same]

/-- A host's part as a receiver does not depend on what happens elsewhere. -/
theorem ReceiverSound.frame {s s' : System Host} {p : Host} (grows : Grows s s')
    (queue : (s'.service p).holdBackQueue = (s.service p).holdBackQueue)
    (cache : (s'.service p).ackMessageCache = (s.service p).ackMessageCache)
    (delivered : s'.delivered p = s.delivered p)
    (accepted : s'.accepted.filter (fun x => x.host = p) = s.accepted.filter fun x => x.host = p)
    (h : s.ReceiverSound D p) : s'.ReceiverSound D p := by
  have back : ∀ id a, s'.Accepted p id a → s.Accepted p id a := by
    intro id a mem
    have filtered : (⟨p, id, a⟩ : Acceptance Host) ∈ s'.accepted.filter fun x => x.host = p :=
      List.mem_filter.mpr ⟨mem, by simp⟩
    rw [accepted] at filtered
    exact (List.mem_filter.mp filtered).1
  refine ⟨?_, ?_, ?_, ?_, ?_, ?_, ?_, ?_, ?_⟩
  · rw [queue]
    intro id mem
    obtain ⟨a, ha⟩ := h.pending id mem
    exact ⟨a, grows.accepted _ ha⟩
  · rw [queue]
    exact fun e mem => (h.genuine e mem).mono grows
  · rw [queue]
    intro e mem deliverable
    obtain ⟨f, hf, rest⟩ := h.final e mem deliverable
    exact ⟨f, grows.finals f hf, rest⟩
  · rw [queue]
    intro e mem undeliverable
    obtain ⟨ha, id⟩ := h.proposal e mem undeliverable
    exact ⟨grows.accepted _ ha, id⟩
  · rw [delivered]
    intro m mem
    obtain ⟨genuine, f, hf, same⟩ := h.delivered m mem
    exact ⟨genuine.mono grows, f, grows.finals f hf, same⟩
  · rw [queue]
    intro id a ha
    rcases h.unsettled id a (back id a ha) with settled | ⟨pending, entry, only⟩
    · exact Or.inl (grows.settled p id settled)
    · exact Or.inr ⟨pending, entry, fun a' ha' => only a' (back id a' ha')⟩
  · rw [cache]
    intro id ack found
    obtain ⟨same, proposer, ha⟩ := h.cached id ack found
    exact ⟨same, proposer, grows.accepted _ ha⟩
  · rw [queue]
    exact h.front
  · rw [queue, delivered, acceptedIdents_congr accepted]
    exact h.balance

/-! ## Consequences -/

theorem Genuine.of_mem {s : System Host} (sound : Sound D s) {p : Host} (mem : p ∈ D.hostnames)
    {m : DataMessage} (multicast : m ∈ s.multicasts p) : s.Genuine D m :=
  ⟨p, mem, ((sound.sender p mem).own m multicast).symm, multicast⟩

/-- A message with a final number was accepted by every host. -/
theorem Sound.accepted_of_final {s : System Host} (sound : Sound D s) {f : SeqMessage}
    (final : f ∈ s.finals) {r : Host} (mem : r ∈ D.hostnames) :
    ∃ a, s.Accepted r f.ident a ∧ a.toNat ≤ f.finalSeq.toNat :=
  (sound.finalSound f final).dominates r mem

/-- The number under which a host still holds a message is at most its final number. -/
theorem Sound.proposal_le_final {s : System Host} (sound : Sound D s) {f : SeqMessage}
    (final : f ∈ s.finals) {r : Host} (mem : r ∈ D.hostnames)
    (unsettled : ¬ s.Settled r f.ident) :
    ∃ e ∈ (s.service r).holdBackQueue.deque,
      e.ident = f.ident ∧ e.deliverable = false ∧ e.finalSeqId ≤ f.finalSeq := by
  obtain ⟨a, accepted, le⟩ := sound.accepted_of_final final mem
  rcases (sound.receiver r mem).unsettled _ _ accepted with settled | ⟨_, entry, _⟩
  · exact (unsettled settled).elim
  · obtain ⟨e, he, same, undeliverable, seq⟩ := entry
    exact ⟨e, he, same, undeliverable, by rw [seq, UInt32.le_iff_toNat_le]; exact le⟩

/-- A settled message has a final number. -/
theorem ReceiverSound.final_of_settled {s : System Host} {p : Host} (h : s.ReceiverSound D p)
    {id : MsgIdentifier} (settled : s.Settled p id) : ∃ f ∈ s.finals, f.ident = id := by
  rcases settled with ⟨m, mem, same⟩ | ⟨e, mem, same, deliverable⟩
  · obtain ⟨_, f, hf, eq⟩ := h.delivered m mem
    exact ⟨f, hf, eq.trans same⟩
  · obtain ⟨f, hf, eq, _⟩ := h.final e mem deliverable
    exact ⟨f, hf, eq.trans same⟩

end System

end GroupComm.Lab1
