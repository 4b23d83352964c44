import Mathlib.Data.List.AList
import GroupComm.Lab1.ContinuousMsgSender
import GroupComm.Lab1.HoldBackQueue

/-!
# `MulticastService`

The handlers of the ISIS total-order multicast.  A handler runs to its end before the next
datagram is read, so it is a function of the service's state; it returns `none` where the
code throws (`at` on a missing key).  What it does to the outside is collected in an
`Outcome`: the datagrams it sends and the messages it hands to the delivery callback.  An
outcome also records two events that later statements count: an accepted `DataMessage`
(`addToQueue` returned true) and a queued `SeqMessage`.

The constant members of the class (`senderId`, `recipients`, `recipientIdMap`) come from the
hostfile and the host the service runs on.  Left out are the delays and the drops made on
purpose, which the network may add anyway, and the log output.
-/

namespace GroupComm.Lab1

open StdAlgorithm

/-- The hosts, and the `std::sort` their program was built with. -/
structure Deployment (Host : Type) extends Hostfile Host where
  sort : StdSort PendingMsg.lt

/-- The proposals for one message: an `unordered_map` from proposers to sequence numbers. -/
abbrev ProposedSeqIds := AList fun _ : UInt32 => UInt32

structure MulticastService (Host : Type) where
  msgId : UInt32 := 0
  latestSeqId : UInt32 := 0
  proposedSeqIdMap : UInt32 → Option ProposedSeqIds := fun _ => none
  holdBackQueue : HoldBackQueue := {}
  dataMsgSender : ContinuousMsgSender DataMessage Host := {}
  seqMsgSender : ContinuousMsgSender SeqMessage Host := {}
  ackMessageCache : MsgIdentifier → Option AckMessage := fun _ => none

/-- What a handler leaves behind. -/
structure Outcome (Host : Type) where
  service : MulticastService Host
  sent : List (Host × Packet) := []
  delivered : List DataMessage := []
  accepted : List (MsgIdentifier × UInt32) := []
  queued : List SeqMessage := []

/-- The comparator `createSeqMessage` gives to `std::max_element`. -/
def proposalLt (p₁ p₂ : (_ : UInt32) × UInt32) : Bool :=
  if p₁.2 = p₂.2 then
    -- breaking ties by using the smaller proposer
    decide (p₁.1 > p₂.1)
  else
    decide (p₁.2 < p₂.2)

theorem keyedBy_proposalLt :
    KeyedBy proposalLt fun p => (toLex (p.2.toNat, OrderDual.toDual p.1.toNat) : ℕ ×ₗ ℕᵒᵈ) := by
  intro a b
  rw [Prod.Lex.lt_iff]
  simp only [ofLex_toLex, UInt32.toNat_inj, proposalLt]
  by_cases seq : a.2 = b.2
  · simp [seq, UInt32.lt_iff_toNat_lt]
  · simp [seq, UInt32.lt_iff_toNat_lt]

/-- Proposals of hosts only: there are as many as hosts when every host has made one. -/
theorem ProposedSeqIds.complete_iff {Host : Type} [DecidableEq Host] {F : Hostfile Host}
    {ids : ProposedSeqIds}
    (known : ∀ j ∈ ids, ∃ r ∈ F.hostnames, F.processIdentifier r = j) :
    ids.entries.length = F.hostnames.length ↔
      ∀ r ∈ F.hostnames, F.processIdentifier r ∈ ids := by
  have keyCount : ids.keys.length = ids.entries.length := by simp [AList.keys, List.keys]
  have idCount : (F.hostnames.map F.processIdentifier).length = F.hostnames.length := by simp
  have keysNodup : ids.keys.Nodup := ids.keys_nodup
  have idsNodup : (F.hostnames.map F.processIdentifier).Nodup :=
    F.nodup.map_on fun h mem h' mem' eq => Hostfile.processIdentifier_inj mem mem' eq
  have within : ids.keys ⊆ F.hostnames.map F.processIdentifier := by
    intro j mem
    obtain ⟨r, hr, eq⟩ := known j mem
    exact List.mem_map.mpr ⟨r, hr, eq⟩
  constructor
  · intro full r hr
    have perm := (List.subperm_of_subset keysNodup within).perm_of_length_le (by omega)
    exact perm.mem_iff.mpr (List.mem_map.mpr ⟨r, hr, rfl⟩)
  · intro all
    have covered : F.hostnames.map F.processIdentifier ⊆ ids.keys := by
      intro j mem
      obtain ⟨r, hr, rfl⟩ := List.mem_map.mp mem
      exact all r hr
    have lower := (List.subperm_of_subset keysNodup within).length_le
    have upper := (List.subperm_of_subset idsNodup covered).length_le
    omega

namespace MulticastService

variable {Host : Type} [DecidableEq Host] (D : Deployment Host) (self : Host)

/-- `createDataMessage`. -/
def createDataMessage (s : MulticastService Host) (data : UInt32) : DataMessage where
  type := MessageType.Data.code
  sender := D.processIdentifier self
  msgId := s.msgId + 1
  data := data

/-- `multicast`. -/
def multicast (s : MulticastService Host) (data : UInt32) : MulticastService Host :=
  { s with
    msgId := s.msgId + 1
    dataMsgSender := s.dataMsgSender.queueMsg D.hostnames (s.createDataMessage D self data) }

/-- `createOrGetAckMessage`, with the cache it leaves. -/
def createOrGetAckMessage (s : MulticastService Host) (dataMsg : DataMessage)
    (proposedSeq : UInt32) (createNew : Bool) :
    Option (AckMessage × (MsgIdentifier → Option AckMessage)) :=
  if createNew then
    let ackMsg : AckMessage :=
      { type := MessageType.Ack.code
        sender := dataMsg.sender
        msgId := dataMsg.msgId
        proposedSeq := proposedSeq
        proposer := D.processIdentifier self }
    some (ackMsg, Function.update s.ackMessageCache dataMsg.ident (some ackMsg))
  else
    (s.ackMessageCache dataMsg.ident).map fun ackMsg => (ackMsg, s.ackMessageCache)

/-- `createSeqMessage`; `none` only on an empty map, where the code reads past the end. -/
def createSeqMessage (ackMsg : AckMessage) (proposedSeqIds : ProposedSeqIds) :
    Option SeqMessage :=
  (maxElement proposalLt proposedSeqIds.entries).map fun largest =>
    { type := MessageType.Seq.code
      sender := ackMsg.sender
      msgId := ackMsg.msgId
      finalSeq := largest.2
      finalSeqProposer := largest.1 }

/-- `createSeqAckMessage`. -/
def createSeqAckMessage (seqMsg : SeqMessage) : SeqAckMessage where
  type := MessageType.SeqAck.code
  sender := seqMsg.sender
  msgId := seqMsg.msgId
  ackSender := D.processIdentifier self

/-- `processDataMsg`. -/
def processDataMsg (s : MulticastService Host) (dataMsg : DataMessage) :
    Option (Outcome Host) := do
  let proposedSeq := s.latestSeqId + 1
  let (added, queue) :=
    s.holdBackQueue.addToQueue dataMsg proposedSeq (D.processIdentifier self)
  let (ackMsg, cache) ← s.createOrGetAckMessage D self dataMsg proposedSeq added
  let sender ← D.recipientIdMap dataMsg.sender
  some
    { service :=
        { s with
          holdBackQueue := queue
          ackMessageCache := cache
          -- a retransmitted message that was not added must not move the counter
          latestSeqId := if added then s.latestSeqId + 1 else s.latestSeqId }
      sent := [(sender, .ack ackMsg)]
      accepted := if added then [(dataMsg.ident, proposedSeq)] else [] }

/-- `processAckMsg`. -/
def processAckMsg (s : MulticastService Host) (ackMsg : AckMessage) : Option (Outcome Host) := do
  let recipient ← D.recipientIdMap ackMsg.proposer
  let (removed, dataMsgSender) := s.dataMsgSender.removeRecipient ackMsg.msgId recipient
  let s := { s with dataMsgSender := dataMsgSender }
  if removed then
    let proposedSeqIds :=
      ((s.proposedSeqIdMap ackMsg.msgId).getD ∅).insert ackMsg.proposer ackMsg.proposedSeq
    let s :=
      { s with
        proposedSeqIdMap :=
          Function.update s.proposedSeqIdMap ackMsg.msgId (some proposedSeqIds) }
    if proposedSeqIds.entries.length = D.hostnames.length then
      let seqMsg ← createSeqMessage ackMsg proposedSeqIds
      some
        { service := { s with seqMsgSender := s.seqMsgSender.queueMsg D.hostnames seqMsg }
          queued := [seqMsg] }
    else
      some { service := s }
  else
    some { service := s }

/-- `processSeqMsg`. -/
def processSeqMsg (s : MulticastService Host) (seqMsg : SeqMessage) : Option (Outcome Host) := do
  let result := s.holdBackQueue.markDeliverable D.sort seqMsg
  let sender ← D.recipientIdMap seqMsg.sender
  some
    { service :=
        { s with
          holdBackQueue := result.queue
          latestSeqId := if result.marked then max s.latestSeqId seqMsg.finalSeq else s.latestSeqId
          ackMessageCache := Function.update s.ackMessageCache seqMsg.ident none }
      sent := [(sender, .seqAck (createSeqAckMessage D self seqMsg))]
      delivered := result.delivered }

/-- `processSeqAckMsg`. -/
def processSeqAckMsg (s : MulticastService Host) (seqAckMsg : SeqAckMessage) :
    Option (Outcome Host) := do
  let recipient ← D.recipientIdMap seqAckMsg.ackSender
  some
    { service :=
        { s with
          seqMsgSender := (s.seqMsgSender.removeRecipient seqAckMsg.msgId recipient).2 } }

/-- The switch of `startListeningForMessages`. -/
def processPacket (s : MulticastService Host) : Packet → Option (Outcome Host)
  | .data m => s.processDataMsg D self m
  | .ack m => s.processAckMsg D m
  | .seq m => s.processSeqMsg D self m
  | .seqAck m => s.processSeqAckMsg D m

/-! ## What the handlers do -/

variable {D self}

/-- A message that is pending already changes nothing; it is answered from the cache, and the
code throws when the cache has no answer. -/
theorem processDataMsg_of_pending {s : MulticastService Host} {dataMsg : DataMessage}
    {sender : Host} (known : D.recipientIdMap dataMsg.sender = some sender)
    (pending : dataMsg.ident ∈ s.holdBackQueue.pendingMsgSet) :
    s.processDataMsg D self dataMsg =
      (s.ackMessageCache dataMsg.ident).map fun ackMsg =>
        { service := s, sent := [(sender, .ack ackMsg)] } := by
  cases cached : s.ackMessageCache dataMsg.ident <;>
    simp [processDataMsg, HoldBackQueue.addToQueue, pending, createOrGetAckMessage, cached, known]

/-- The answer to a message that is new to the queue. -/
def newAck (D : Deployment Host) (self : Host) (s : MulticastService Host)
    (dataMsg : DataMessage) : AckMessage where
  type := MessageType.Ack.code
  sender := dataMsg.sender
  msgId := dataMsg.msgId
  proposedSeq := s.latestSeqId + 1
  proposer := D.processIdentifier self

/-- The service once it has accepted `dataMsg`. -/
def accept (D : Deployment Host) (self : Host) (s : MulticastService Host)
    (dataMsg : DataMessage) : MulticastService Host :=
  { s with
    holdBackQueue :=
      { pendingMsgSet := insert dataMsg.ident s.holdBackQueue.pendingMsgSet
        deque := s.holdBackQueue.deque ++
          [⟨dataMsg, s.latestSeqId + 1, D.processIdentifier self, false⟩] }
    ackMessageCache :=
      Function.update s.ackMessageCache dataMsg.ident (some (s.newAck D self dataMsg))
    latestSeqId := s.latestSeqId + 1 }

theorem processDataMsg_of_new {s : MulticastService Host} {dataMsg : DataMessage}
    {sender : Host} (known : D.recipientIdMap dataMsg.sender = some sender)
    (new : dataMsg.ident ∉ s.holdBackQueue.pendingMsgSet) :
    s.processDataMsg D self dataMsg =
      some
        { service := s.accept D self dataMsg
          sent := [(sender, .ack (s.newAck D self dataMsg))]
          accepted := [(dataMsg.ident, s.latestSeqId + 1)] } := by
  simp [processDataMsg, HoldBackQueue.addToQueue, new, createOrGetAckMessage, known, newAck,
    accept]

/-- The proposals for a message once `ackMsg` has been counted. -/
def proposalsWith (s : MulticastService Host) (ackMsg : AckMessage) : ProposedSeqIds :=
  ((s.proposedSeqIdMap ackMsg.msgId).getD ∅).insert ackMsg.proposer ackMsg.proposedSeq

/-- The service once it has counted `ackMsg`, the answer of `recipient`. -/
def count (s : MulticastService Host) (ackMsg : AckMessage) (recipient : Host) :
    MulticastService Host :=
  { s with
    dataMsgSender := (s.dataMsgSender.removeRecipient ackMsg.msgId recipient).2
    proposedSeqIdMap :=
      Function.update s.proposedSeqIdMap ackMsg.msgId (some (s.proposalsWith ackMsg)) }

/-- What an answer does: nothing when it is not awaited; otherwise it is counted, and the last one
queues the final number. -/
theorem processAckMsg_cases (s : MulticastService Host) {ackMsg : AckMessage} {recipient : Host}
    (known : D.recipientIdMap ackMsg.proposer = some recipient) :
    ((s.dataMsgSender.removeRecipient ackMsg.msgId recipient).1 = false ∧
      s.processAckMsg D ackMsg =
        some
          { service :=
              { s with
                dataMsgSender := (s.dataMsgSender.removeRecipient ackMsg.msgId recipient).2 } }) ∨
    (s.dataMsgSender.removeRecipient ackMsg.msgId recipient).1 = true ∧
      ((s.proposalsWith ackMsg).entries.length ≠ D.hostnames.length ∧
        s.processAckMsg D ackMsg = some { service := s.count ackMsg recipient } ∨
      (s.proposalsWith ackMsg).entries.length = D.hostnames.length ∧
        ∃ seqMsg, createSeqMessage ackMsg (s.proposalsWith ackMsg) = some seqMsg ∧
          s.processAckMsg D ackMsg =
            some
              { service :=
                  { s.count ackMsg recipient with
                    seqMsgSender := s.seqMsgSender.queueMsg D.hostnames seqMsg }
                queued := [seqMsg] }) := by
  cases removed : (s.dataMsgSender.removeRecipient ackMsg.msgId recipient).1 with
  | false =>
      refine Or.inl ⟨rfl, ?_⟩
      simp [processAckMsg, known, removed]
  | true =>
      refine Or.inr ⟨rfl, ?_⟩
      by_cases complete : (s.proposalsWith ackMsg).entries.length = D.hostnames.length
      · have nonempty : (s.proposalsWith ackMsg).entries ≠ [] := by
          simp [proposalsWith, AList.entries_insert]
        obtain ⟨largest, found⟩ := exists_maxElement proposalLt nonempty
        have created : createSeqMessage ackMsg (s.proposalsWith ackMsg) =
            some ⟨MessageType.Seq.code, ackMsg.sender, ackMsg.msgId, largest.2, largest.1⟩ := by
          rw [createSeqMessage, found]
          rfl
        refine Or.inr ⟨complete, _, created, ?_⟩
        rw [proposalsWith] at complete created
        simp only [processAckMsg, known, Option.bind_eq_bind, Option.bind_some, removed, if_true,
          complete, created]
        rfl
      · refine Or.inl ⟨complete, ?_⟩
        rw [proposalsWith] at complete
        simp only [processAckMsg, known, Option.bind_eq_bind, Option.bind_some, removed, if_true,
          complete, if_false]
        rfl

theorem processAckMsg_of_not_owes {s : MulticastService Host} {ackMsg : AckMessage}
    {recipient : Host} (known : D.recipientIdMap ackMsg.proposer = some recipient)
    (wf : s.dataMsgSender.WellFormed) (notOwed : ¬ s.dataMsgSender.Owes ackMsg.msgId recipient) :
    s.processAckMsg D ackMsg = some { service := s } := by
  simp [processAckMsg, known, wf.removeRecipient_of_not_owes notOwed]

theorem processAckMsg_of_incomplete {s : MulticastService Host} {ackMsg : AckMessage}
    {recipient : Host} (known : D.recipientIdMap ackMsg.proposer = some recipient)
    (wf : s.dataMsgSender.WellFormed) (owed : s.dataMsgSender.Owes ackMsg.msgId recipient)
    (incomplete : (s.proposalsWith ackMsg).entries.length ≠ D.hostnames.length) :
    s.processAckMsg D ackMsg = some { service := s.count ackMsg recipient } := by
  have removed := (wf.removed_iff ackMsg.msgId recipient).mpr owed
  rcases s.processAckMsg_cases known with ⟨kept, _⟩ | ⟨_, ⟨_, eq⟩ | ⟨complete, _⟩⟩
  · rw [removed] at kept
    cases kept
  · exact eq
  · exact (incomplete complete).elim

theorem processAckMsg_of_complete {s : MulticastService Host} {ackMsg : AckMessage}
    {recipient : Host} (known : D.recipientIdMap ackMsg.proposer = some recipient)
    (wf : s.dataMsgSender.WellFormed) (owed : s.dataMsgSender.Owes ackMsg.msgId recipient)
    (complete : (s.proposalsWith ackMsg).entries.length = D.hostnames.length) :
    ∃ seqMsg, createSeqMessage ackMsg (s.proposalsWith ackMsg) = some seqMsg ∧
      s.processAckMsg D ackMsg =
        some
          { service :=
              { s.count ackMsg recipient with
                seqMsgSender := s.seqMsgSender.queueMsg D.hostnames seqMsg }
            queued := [seqMsg] } := by
  have removed := (wf.removed_iff ackMsg.msgId recipient).mpr owed
  rcases s.processAckMsg_cases known with ⟨kept, _⟩ | ⟨_, ⟨incomplete, _⟩ | ⟨_, queued⟩⟩
  · rw [removed] at kept
    cases kept
  · exact (incomplete complete).elim
  · exact queued

/-- The final number is one of the proposals, and none is larger. -/
theorem createSeqMessage_spec {ackMsg : AckMessage} {proposedSeqIds : ProposedSeqIds}
    {seqMsg : SeqMessage} (created : createSeqMessage ackMsg proposedSeqIds = some seqMsg) :
    seqMsg.sender = ackMsg.sender ∧ seqMsg.msgId = ackMsg.msgId ∧
      proposedSeqIds.lookup seqMsg.finalSeqProposer = some seqMsg.finalSeq ∧
      ∀ proposer seq, proposedSeqIds.lookup proposer = some seq →
        seq.toNat ≤ seqMsg.finalSeq.toNat := by
  obtain ⟨largest, found, rfl⟩ := Option.map_eq_some_iff.mp created
  refine ⟨rfl, rfl, AList.mem_lookup_iff.mpr (maxElement_mem keyedBy_proposalLt found), ?_⟩
  intro proposer seq entry
  have below := le_maxElement keyedBy_proposalLt found _ (AList.mem_lookup_iff.mp entry)
  rw [Prod.Lex.le_iff] at below
  rcases below with less | same
  · exact le_of_lt less
  · exact le_of_eq same.1

/-- The service once it has handled `seqMsg`. -/
def finish (D : Deployment Host) (s : MulticastService Host) (seqMsg : SeqMessage) :
    MulticastService Host :=
  { s with
    holdBackQueue := (s.holdBackQueue.markDeliverable D.sort seqMsg).queue
    latestSeqId :=
      if (s.holdBackQueue.markDeliverable D.sort seqMsg).marked then
        max s.latestSeqId seqMsg.finalSeq
      else s.latestSeqId
    ackMessageCache := Function.update s.ackMessageCache seqMsg.ident none }

theorem processSeqMsg_eq {s : MulticastService Host} {seqMsg : SeqMessage} {sender : Host}
    (known : D.recipientIdMap seqMsg.sender = some sender) :
    s.processSeqMsg D self seqMsg =
      some
        { service := s.finish D seqMsg
          sent := [(sender, .seqAck (createSeqAckMessage D self seqMsg))]
          delivered := (s.holdBackQueue.markDeliverable D.sort seqMsg).delivered } := by
  simp [processSeqMsg, known, finish]

theorem processSeqAckMsg_eq {s : MulticastService Host} {seqAckMsg : SeqAckMessage}
    {recipient : Host} (known : D.recipientIdMap seqAckMsg.ackSender = some recipient) :
    s.processSeqAckMsg D seqAckMsg =
      some
        { service :=
            { s with
              seqMsgSender :=
                (s.seqMsgSender.removeRecipient seqAckMsg.msgId recipient).2 } } := by
  simp [processSeqAckMsg, known]

end MulticastService

end GroupComm.Lab1
