import GroupComm.Lab1.Serde
import GroupComm.Lab1.Network

/-!
# The multicast over datagrams of bytes

The model of `Network.lean` one level down: a channel holds bytes, a sender serializes into a
buffer that held anything before, and the receiver's loop reads into a buffer of
`MAX_UDP_BUFFER_SIZE` bytes, takes the type from the first word, may drop the message on purpose
and hands what it deserializes to the handler of the type.

* `Typed`: the type word of every message says what kind of message it is.
* `listen_receive`: the loop takes a datagram for the message that was sent.
* `datagrams_refine`: the states of the two levels correspond, and no `CHECK` of `Serde` fails.

A `MsgHolder` serializes its message once and sends the copy; here it is serialized for each
sending.  Left out are the two callbacks; what `incomingMessageCb` records is in `Recording.lean`.
-/

namespace GroupComm.Lab1

open Serde Transition

/-- `MAX_UDP_BUFFER_SIZE`. -/
def maxUdpBufferSize : ℕ := 1024

/-- What memory holds that has not been written. -/
abbrev Memory := ℕ → UInt8

/-- `char buffer[size]`. -/
def Memory.buffer (memory : Memory) (size : ℕ) : Bytes :=
  (List.range size).map memory

@[simp] theorem Memory.length_buffer (memory : Memory) (size : ℕ) :
    (memory.buffer size).length = size := by
  simp [buffer]

/-- Into `char buffer[MAX_UDP_BUFFER_SIZE]`. -/
def UDPReceiver.receive (memory : Memory) (datagram : Bytes) : Message where
  received := datagram.take maxUdpBufferSize
  unset := (memory.buffer maxUdpBufferSize).drop datagram.length

namespace Packet

/-- The datagram a message is sent as. -/
def serialize (memory : Memory) : Packet → Bytes
  | .data m => serializeDataMessage m (memory.buffer sizeofDataMessage)
  | .ack m => serializeAckMessage m (memory.buffer sizeofAckMessage)
  | .seq m => serializeSeqMessage m (memory.buffer sizeofSeqMessage)
  | .seqAck m => serializeSeqAckMessage m (memory.buffer sizeofSeqAckMessage)

/-- The type word says which kind of message it is. -/
def Typed : Packet → Prop
  | .data m => m.type = MessageType.Data.code
  | .ack m => m.type = MessageType.Ack.code
  | .seq m => m.type = MessageType.Seq.code
  | .seqAck m => m.type = MessageType.SeqAck.code

/-- Nothing of what the buffer held is sent. -/
theorem serialize_eq (memory memory' : Memory) (packet : Packet) :
    packet.serialize memory = packet.serialize memory' := by
  cases packet with
  | data m => exact dataMessage_roundTrips.overwritten m _ _ (by simp) (by simp)
  | ack m => exact ackMessage_roundTrips.overwritten m _ _ (by simp) (by simp)
  | seq m => exact seqMessage_roundTrips.overwritten m _ _ (by simp) (by simp)
  | seqAck m => exact seqAckMessage_roundTrips.overwritten m _ _ (by simp) (by simp)

/-- A datagram fits into the buffer of the receiver. -/
theorem length_serialize_le (memory : Memory) (packet : Packet) :
    (packet.serialize memory).length ≤ maxUdpBufferSize := by
  cases packet with
  | data m =>
      rw [serialize, dataMessage_roundTrips.length m _ (by simp)]
      decide
  | ack m =>
      rw [serialize, ackMessage_roundTrips.length m _ (by simp)]
      decide
  | seq m =>
      rw [serialize, seqMessage_roundTrips.length m _ (by simp)]
      decide
  | seqAck m =>
      rw [serialize, seqAckMessage_roundTrips.length m _ (by simp)]
      decide

theorem received_serialize (memory memory' : Memory) (packet : Packet) :
    (UDPReceiver.receive memory' (packet.serialize memory)).received = packet.serialize memory :=
  List.take_of_length_le (length_serialize_le memory packet)

end Packet

namespace MulticastService

variable {Host : Type} [DecidableEq Host] (D : Deployment Host) (self : Host)

/-- The body of the loop of `startListeningForMessages`; `drop` is the result of `dropMessage`. -/
def listen (s : MulticastService Host) (message : Message) (drop : Bool) :
    Option (Outcome Host) := do
  let messageType ← getMessageType message
  if drop then some { service := s }
  else if messageType = MessageType.Data.code then
    s.processDataMsg D self (← deserializeDataMsg message)
  else if messageType = MessageType.Ack.code then
    s.processAckMsg D (← deserializeAckMessage message)
  else if messageType = MessageType.Seq.code then
    s.processSeqMsg D self (← deserializeSeqMessage message)
  else if messageType = MessageType.SeqAck.code then
    s.processSeqAckMsg D (← deserializeSeqAckMessage message)
  else none

variable {D self} {s : MulticastService Host}

/-- A datagram is taken for the message that was sent. -/
theorem listen_receive {packet : Packet} (typed : packet.Typed) (memory memory' : Memory) :
    s.listen D self (UDPReceiver.receive memory' (packet.serialize memory)) false =
      s.processPacket D self packet := by
  have received := packet.received_serialize memory memory'
  cases packet with
  | data m =>
      have kind := dataMessage_roundTrips.typed m _ _ (by simp) received
      have same := dataMessage_roundTrips.decoded m _ _ (by simp) received
      have type : m.type = MessageType.Data.code := typed
      rw [type] at kind
      simp [listen, kind, same, processPacket]
  | ack m =>
      have kind := ackMessage_roundTrips.typed m _ _ (by simp) received
      have same := ackMessage_roundTrips.decoded m _ _ (by simp) received
      have type : m.type = MessageType.Ack.code := typed
      rw [type] at kind
      simp [listen, kind, same, processPacket, MessageType.code]
  | seq m =>
      have kind := seqMessage_roundTrips.typed m _ _ (by simp) received
      have same := seqMessage_roundTrips.decoded m _ _ (by simp) received
      have type : m.type = MessageType.Seq.code := typed
      rw [type] at kind
      simp [listen, kind, same, processPacket, MessageType.code]
  | seqAck m =>
      have kind := seqAckMessage_roundTrips.typed m _ _ (by simp) received
      have same := seqAckMessage_roundTrips.decoded m _ _ (by simp) received
      have type : m.type = MessageType.SeqAck.code := typed
      rw [type] at kind
      simp [listen, kind, same, processPacket, MessageType.code]

theorem listen_drop (packet : Packet) (memory memory' : Memory) :
    s.listen D self (UDPReceiver.receive memory' (packet.serialize memory)) true =
      some { service := s } := by
  have received := packet.received_serialize memory memory'
  cases packet with
  | data m =>
      have kind := dataMessage_roundTrips.typed m _ _ (by simp) received
      simp [listen, kind]
  | ack m =>
      have kind := ackMessage_roundTrips.typed m _ _ (by simp) received
      simp [listen, kind]
  | seq m =>
      have kind := seqMessage_roundTrips.typed m _ _ (by simp) received
      simp [listen, kind]
  | seqAck m =>
      have kind := seqAckMessage_roundTrips.typed m _ _ (by simp) received
      simp [listen, kind]

/-! ## The type words -/

/-- The messages that a service keeps name their kind. -/
structure Typed (s : MulticastService Host) : Prop where
  data : ∀ holder ∈ s.dataMsgSender.msgList, holder.orgMsg.type = MessageType.Data.code
  seq : ∀ holder ∈ s.seqMsgSender.msgList, holder.orgMsg.type = MessageType.Seq.code
  cached : ∀ id ack, s.ackMessageCache id = some ack → ack.type = MessageType.Ack.code

omit [DecidableEq Host] in
theorem typed_initial : Typed ({} : MulticastService Host) where
  data _ mem := (List.not_mem_nil mem).elim
  seq _ mem := (List.not_mem_nil mem).elim
  cached _ _ found := by cases found

theorem typed_of_createSeqMessage {ackMsg : AckMessage} {proposedSeqIds : ProposedSeqIds}
    {seqMsg : SeqMessage} (created : createSeqMessage ackMsg proposedSeqIds = some seqMsg) :
    seqMsg.type = MessageType.Seq.code := by
  obtain ⟨_, _, rfl⟩ := Option.map_eq_some_iff.mp created
  rfl

/-- What a handler keeps and sends. -/
structure TypedOutcome (o : Outcome Host) : Prop where
  service : o.service.Typed
  sent : ∀ x ∈ o.sent, x.2.Typed

theorem Typed.processDataMsg (h : s.Typed) {m : DataMessage} {o : Outcome Host}
    (handled : s.processDataMsg D self m = some o) : TypedOutcome o := by
  simp only [MulticastService.processDataMsg, Option.bind_eq_bind, Option.bind_eq_some_iff,
    Option.some.injEq] at handled
  obtain ⟨⟨ack, cache⟩, created, sender, _, rfl⟩ := handled
  have kept : ack.type = MessageType.Ack.code ∧
      ∀ id ack, cache id = some ack → ack.type = MessageType.Ack.code := by
    unfold createOrGetAckMessage at created
    split at created
    · cases created
      refine ⟨rfl, fun id ack found => ?_⟩
      rw [Function.update_apply] at found
      split at found
      · cases found
        rfl
      · exact h.cached id ack found
    · obtain ⟨_, found, eq⟩ := Option.map_eq_some_iff.mp created
      cases eq
      exact ⟨h.cached _ _ found, h.cached⟩
  refine ⟨⟨h.data, h.seq, kept.2⟩, ?_⟩
  rintro _ mem
  rw [List.mem_singleton] at mem
  subst mem
  exact kept.1

theorem Typed.processAckMsg (h : s.Typed) {m : AckMessage} {o : Outcome Host}
    (handled : s.processAckMsg D m = some o) : TypedOutcome o := by
  simp only [MulticastService.processAckMsg, Option.bind_eq_bind,
    Option.bind_eq_some_iff] at handled
  obtain ⟨recipient, _, handled⟩ := handled
  have data : ∀ holder ∈ (s.dataMsgSender.removeRecipient m.msgId recipient).2.msgList,
      holder.orgMsg.type = MessageType.Data.code := by
    intro holder mem
    obtain ⟨old, held, same, _⟩ :=
      ContinuousMsgSender.orgMsg_removeRecipient _ m.msgId recipient holder mem
    rw [← same]
    exact h.data old held
  split at handled
  · split at handled
    · obtain ⟨seqMsg, created, eq⟩ := Option.bind_eq_some_iff.mp handled
      cases eq
      refine ⟨⟨data, fun holder mem => ?_, h.cached⟩, fun _ mem => (List.not_mem_nil mem).elim⟩
      rcases List.mem_append.mp mem with old | new
      · exact h.seq holder old
      · rw [List.mem_singleton] at new
        subst new
        exact typed_of_createSeqMessage created
    · cases handled
      exact ⟨⟨data, h.seq, h.cached⟩, fun _ mem => (List.not_mem_nil mem).elim⟩
  · cases handled
    exact ⟨⟨data, h.seq, h.cached⟩, fun _ mem => (List.not_mem_nil mem).elim⟩

theorem Typed.processSeqMsg (h : s.Typed) {m : SeqMessage} {o : Outcome Host}
    (handled : s.processSeqMsg D self m = some o) : TypedOutcome o := by
  simp only [MulticastService.processSeqMsg, Option.bind_eq_bind, Option.bind_eq_some_iff,
    Option.some.injEq] at handled
  obtain ⟨sender, _, rfl⟩ := handled
  refine ⟨⟨h.data, h.seq, fun id ack found => ?_⟩, fun _ mem => ?_⟩
  · dsimp only at found
    rw [Function.update_apply] at found
    split at found
    · cases found
    · exact h.cached id ack found
  · rw [List.mem_singleton] at mem
    subst mem
    rfl

theorem Typed.processSeqAckMsg (h : s.Typed) {m : SeqAckMessage} {o : Outcome Host}
    (handled : s.processSeqAckMsg D m = some o) : TypedOutcome o := by
  simp only [MulticastService.processSeqAckMsg, Option.bind_eq_bind, Option.bind_eq_some_iff,
    Option.some.injEq] at handled
  obtain ⟨recipient, _, rfl⟩ := handled
  refine ⟨⟨h.data, fun holder mem => ?_, h.cached⟩, fun _ mem => (List.not_mem_nil mem).elim⟩
  obtain ⟨old, held, same, _⟩ :=
    ContinuousMsgSender.orgMsg_removeRecipient _ m.msgId recipient holder mem
  rw [← same]
  exact h.seq old held

theorem Typed.processPacket (h : s.Typed) {packet : Packet} {o : Outcome Host}
    (handled : s.processPacket D self packet = some o) : TypedOutcome o := by
  cases packet with
  | data m => exact h.processDataMsg handled
  | ack m => exact h.processAckMsg handled
  | seq m => exact h.processSeqMsg handled
  | seqAck m => exact h.processSeqAckMsg handled

end MulticastService

namespace System

variable {Host : Type} [DecidableEq Host] {D : Deployment Host} {s s' : System Host}

/-- All messages, in flight or kept, name their kind. -/
structure Typed (s : System Host) : Prop where
  service : ∀ p, (s.service p).Typed
  packets : ∀ a b, ∀ packet ∈ s.channel a b, packet.Typed

omit [DecidableEq Host] in
theorem typed_initial : Typed (initial Host) where
  service _ := MulticastService.typed_initial
  packets _ _ _ mem := (List.not_mem_nil mem).elim

theorem Typed.post (h : s.Typed) {p : Host} {sent : List (Host × Packet)}
    (typed : ∀ x ∈ sent, x.2.Typed) : (s.post p sent).Typed where
  service := h.service
  packets a b packet mem := by
    rcases mem_channel_post.mp mem with old | ⟨_, new⟩
    · exact h.packets a b packet old
    · exact typed _ new

theorem Typed.setChannel (h : s.Typed) {src dst : Host} {l : List Packet}
    (sub : l ⊆ s.channel src dst) : (s.setChannel src dst l).Typed where
  service := h.service
  packets a b packet mem := h.packets a b packet (mem_channel_setChannel mem sub)

theorem Typed.update (h : s.Typed) {p : Host} {service : MulticastService Host}
    (typed : service.Typed) (q : Host) : (Function.update s.service p service q).Typed := by
  rw [Function.update_apply]
  split
  · exact typed
  · exact h.service q

theorem Typed.step (h : s.Typed) {e : Event Host} (taken : s.step D e = some s') :
    s'.Typed := by
  cases e with
  | multicast p data =>
      obtain ⟨_, rfl⟩ := step_multicast taken
      refine ⟨h.update ⟨fun holder mem => ?_, (h.service p).seq, (h.service p).cached⟩, h.packets⟩
      rcases List.mem_append.mp mem with old | new
      · exact (h.service p).data holder old
      · rw [List.mem_singleton] at new
        subst new
        rfl
  | sendData p i recipient =>
      obtain ⟨_, holder, mem, _, rfl⟩ := step_sendData taken
      refine h.post fun sent new => ?_
      rw [List.mem_singleton] at new
      subst new
      exact (h.service p).data holder mem
  | sendSeq p i recipient =>
      obtain ⟨_, holder, mem, _, rfl⟩ := step_sendSeq taken
      refine h.post fun sent new => ?_
      rw [List.mem_singleton] at new
      subst new
      exact (h.service p).seq holder mem
  | receive src dst i copy =>
      obtain ⟨_, packet, _, ⟨o, handled, rfl⟩ | ⟨_, rfl⟩⟩ := step_receive taken
      · have typed := (h.service dst).processPacket handled
        have shrunk := h.setChannel (leftover_subset (s.channel src dst) i copy)
        have handler : Typed { s.setChannel src dst (leftover (s.channel src dst) i copy) with
            service := Function.update s.service dst o.service } :=
          ⟨h.update typed.service, shrunk.packets⟩
        exact ⟨handler.service, (handler.post typed.sent).packets⟩
      · exact ⟨h.service, (h.setChannel (leftover_subset _ i copy)).packets⟩
  | lose src dst i =>
      rw [step_lose taken]
      exact h.setChannel List.eraseIdx_subset

theorem typed_of_reachable (reachable : s.Reachable D) : s.Typed :=
  reachable.invariant typed_initial fun _ _ _ h _ taken => h.step taken

end System

/-! ## The level of bytes -/

/-- `System` with the datagrams in flight as they are sent. -/
structure Wire (Host : Type) where
  service : Host → MulticastService Host
  channel : Host → Host → List Bytes
  stopped : Host → Bool
  delivered : Host → List DataMessage
  multicasts : Host → List DataMessage
  accepted : List (Acceptance Host)
  finals : List SeqMessage

namespace Wire

variable {Host : Type} [DecidableEq Host] (D : Deployment Host)

/-- `memory` is what the buffers of a step hold before it. -/
inductive Event (Host : Type) where
  | multicast (p : Host) (data : UInt32)
  | sendData (p : Host) (i : Nat) (recipient : Host) (memory : Memory)
  | sendSeq (p : Host) (i : Nat) (recipient : Host) (memory : Memory)
  | receive (src dst : Host) (i : Nat) (copy drop : Bool) (memory : Memory)
  | lose (src dst : Host) (i : Nat)

def initial (Host : Type) : Wire Host where
  service _ := {}
  channel _ _ := []
  stopped _ := false
  delivered _ := []
  multicasts _ := []
  accepted := []
  finals := []

def post (w : Wire Host) (p : Host) (sent : List (Host × Bytes)) : Wire Host :=
  { w with
    channel := fun a b =>
      if a = p then w.channel a b ++ (sent.filter fun x => x.1 = b).map (·.2)
      else w.channel a b }

def setChannel (w : Wire Host) (src dst : Host) (l : List Bytes) : Wire Host :=
  { w with channel := fun a b => if a = src ∧ b = dst then l else w.channel a b }

def commit (w : Wire Host) (memory : Memory) (p : Host) (o : Outcome Host) : Wire Host :=
  post
    { w with
      service := Function.update w.service p o.service
      delivered := Function.update w.delivered p (w.delivered p ++ o.delivered)
      accepted := w.accepted ++ o.accepted.map fun x => ⟨p, x.1, x.2⟩
      finals := w.finals ++ o.queued }
    p (o.sent.map fun x => (x.1, x.2.serialize memory))

def running (w : Wire Host) (p : Host) : Prop := p ∈ D.hostnames ∧ w.stopped p = false

instance (w : Wire Host) (p : Host) : Decidable (w.running D p) :=
  inferInstanceAs (Decidable (_ ∧ _))

def step (w : Wire Host) : Event Host → Option (Wire Host)
  | .multicast p data =>
      if w.running D p then
        some
          { w with
            service := Function.update w.service p ((w.service p).multicast D p data)
            multicasts := Function.update w.multicasts p
              (w.multicasts p ++ [(w.service p).createDataMessage D p data]) }
      else none
  | .sendData p i recipient memory =>
      match (w.service p).dataMsgSender.msgList[i]? with
      | some holder =>
          if w.running D p ∧ recipient ∈ holder.recipients then
            some (w.post p [(recipient, (Packet.data holder.orgMsg).serialize memory)])
          else none
      | none => none
  | .sendSeq p i recipient memory =>
      match (w.service p).seqMsgSender.msgList[i]? with
      | some holder =>
          if w.running D p ∧ recipient ∈ holder.recipients then
            some (w.post p [(recipient, (Packet.seq holder.orgMsg).serialize memory)])
          else none
      | none => none
  | .receive src dst i copy drop memory =>
      match (w.channel src dst)[i]? with
      | some datagram =>
          if w.running D dst then
            let w := if copy then w else w.setChannel src dst ((w.channel src dst).eraseIdx i)
            match (w.service dst).listen D dst (UDPReceiver.receive memory datagram) drop with
            | some o => some (w.commit memory dst o)
            | none => some { w with stopped := Function.update w.stopped dst true }
          else none
      | none => none
  | .lose src dst i =>
      match (w.channel src dst)[i]? with
      | some _ => some (w.setChannel src dst ((w.channel src dst).eraseIdx i))
      | none => none

abbrev Reachable (w : Wire Host) : Prop :=
  Reach (step D) Always (initial Host) w

end Wire

namespace System

variable {Host : Type} [DecidableEq Host] {D : Deployment Host} {s s' : System Host}

/-- A buffer in which nothing has been written. -/
def blank : Memory := fun _ => 0

/-- The state with every message in flight as it is sent. -/
def wire (s : System Host) : Wire Host where
  service := s.service
  channel a b := (s.channel a b).map (Packet.serialize blank)
  stopped := s.stopped
  delivered := s.delivered
  multicasts := s.multicasts
  accepted := s.accepted
  finals := s.finals

/-! ## The correspondence of the operations -/

/-- What a host is sent, of the messages of a step. -/
theorem serialize_sent (sent : List (Host × Packet)) (memory : Memory) (b : Host) :
    ((sent.filter fun x => x.1 = b).map (·.2)).map (Packet.serialize blank) =
      ((sent.map fun x => (x.1, x.2.serialize memory)).filter fun x => x.1 = b).map (·.2) := by
  induction sent with
  | nil => rfl
  | cons x sent ih =>
      rw [List.map_cons, List.filter_cons, List.filter_cons]
      dsimp only
      by_cases here : x.1 = b
      · rw [if_pos (decide_eq_true here), if_pos (decide_eq_true here), List.map_cons,
          List.map_cons, List.map_cons, ih, Packet.serialize_eq blank memory]
      · rw [if_neg (by simpa using here), if_neg (by simpa using here), ih]

theorem wire_post (s : System Host) (p : Host) (sent : List (Host × Packet)) (memory : Memory) :
    (s.post p sent).wire =
      s.wire.post p (sent.map fun x => (x.1, x.2.serialize memory)) := by
  unfold wire post Wire.post
  congr
  funext a b
  dsimp only
  by_cases same : a = p
  · rw [if_pos same, if_pos same, List.map_append, serialize_sent sent memory b]
  · rw [if_neg same, if_neg same]

theorem wire_setChannel (s : System Host) (src dst : Host) (l : List Packet) :
    (s.setChannel src dst l).wire =
      s.wire.setChannel src dst (l.map (Packet.serialize blank)) := by
  unfold wire setChannel Wire.setChannel
  congr
  funext a b
  dsimp only
  by_cases same : a = src ∧ b = dst
  · rw [if_pos same, if_pos same]
  · rw [if_neg same, if_neg same]

theorem wire_commit (s : System Host) (memory : Memory) (p : Host) (o : Outcome Host) :
    (s.commit p o).wire = s.wire.commit memory p o :=
  wire_post _ p o.sent memory

theorem wire_leftover (s : System Host) (src dst : Host) (i : ℕ) (copy : Bool) :
    (s.setChannel src dst (leftover (s.channel src dst) i copy)).wire =
      if copy then s.wire
      else s.wire.setChannel src dst ((s.wire.channel src dst).eraseIdx i) := by
  cases copy with
  | true =>
      rw [leftover, if_pos rfl, setChannel_self]
      rfl
  | false =>
      rw [leftover, if_neg Bool.false_ne_true, wire_setChannel, ← List.eraseIdx_map]
      rfl

/-! ## Every step of one level is a step of the other -/

omit [DecidableEq Host] in
theorem getElem?_wire {src dst : Host} {i : ℕ} {datagram : Bytes}
    (found : (s.wire.channel src dst)[i]? = some datagram) :
    ∃ packet, (s.channel src dst)[i]? = some packet ∧ datagram = packet.serialize blank := by
  rw [wire, List.getElem?_map, Option.map_eq_some_iff] at found
  obtain ⟨packet, found, eq⟩ := found
  exact ⟨packet, found, eq.symm⟩

/-- A message that the receiver drops on purpose. -/
theorem wire_commit_self (s : System Host) (memory : Memory) (p : Host) :
    s.wire.commit memory p { service := s.service p } = s.wire := by
  unfold Wire.commit Wire.post wire
  simp

theorem receive_of_wire (typed : s.Typed) {src dst : Host} {i : ℕ} {copy drop : Bool}
    {memory : Memory} {w : Wire Host}
    (taken : s.wire.step D (.receive src dst i copy drop memory) = some w) :
    ∃ s', Reach (step D) Always s s' ∧ s'.wire = w := by
  simp only [Wire.step] at taken
  split at taken
  · rename_i datagram inFlight
    split at taken
    · rename_i running
      obtain ⟨packet, found, rfl⟩ := getElem?_wire inFlight
      have mem := List.mem_of_getElem? found
      rw [← wire_leftover] at taken
      set t := s.setChannel src dst (leftover (s.channel src dst) i copy) with ht
      have service : t.wire.service dst = s.service dst := rfl
      rw [service] at taken
      cases drop with
      | true =>
          rw [MulticastService.listen_drop] at taken
          cases taken
          have same := wire_commit_self t memory dst
          cases copy with
          | true =>
              have kept : t = s := by rw [ht, leftover, if_pos rfl, setChannel_self]
              exact ⟨t, by rw [kept]; exact .start, same.symm⟩
          | false =>
              have loses : s.step D (.lose src dst i) = some t := by
                simp only [step, found]
                rfl
              exact ⟨t, .next .start trivial loses, same.symm⟩
      | false =>
          rw [MulticastService.listen_receive (typed.packets src dst packet mem)] at taken
          split at taken
          · rename_i o handled
            cases taken
            exact ⟨_, .next .start trivial (step_receive_some found running handled),
              wire_commit t memory dst o⟩
          · rename_i thrown
            cases taken
            exact ⟨_, .next .start trivial (step_receive_none found running thrown), rfl⟩
    · cases taken
  · cases taken

theorem step_of_wire (typed : s.Typed) {e : Wire.Event Host} {w : Wire Host}
    (taken : s.wire.step D e = some w) :
    ∃ s', Reach (step D) Always s s' ∧ s'.wire = w := by
  cases e with
  | multicast p data =>
      simp only [Wire.step] at taken
      split at taken
      · rename_i guard
        cases taken
        exact ⟨_, .next .start (e := .multicast p data) trivial (if_pos guard), rfl⟩
      · cases taken
  | sendData p i recipient memory =>
      simp only [Wire.step] at taken
      split at taken
      · rename_i holder found
        split at taken
        · rename_i guard
          cases taken
          have sends : s.step D (.sendData p i recipient) =
              some (s.post p [(recipient, .data holder.orgMsg)]) := by
            simp only [step, show (s.service p).dataMsgSender.msgList[i]? = some holder from found]
            exact if_pos guard
          exact ⟨_, .next .start trivial sends, wire_post s p _ memory⟩
        · cases taken
      · cases taken
  | sendSeq p i recipient memory =>
      simp only [Wire.step] at taken
      split at taken
      · rename_i holder found
        split at taken
        · rename_i guard
          cases taken
          have sends : s.step D (.sendSeq p i recipient) =
              some (s.post p [(recipient, .seq holder.orgMsg)]) := by
            simp only [step, show (s.service p).seqMsgSender.msgList[i]? = some holder from found]
            exact if_pos guard
          exact ⟨_, .next .start trivial sends, wire_post s p _ memory⟩
        · cases taken
      · cases taken
  | receive src dst i copy drop memory => exact receive_of_wire typed taken
  | lose src dst i =>
      simp only [Wire.step] at taken
      split at taken
      · rename_i datagram found
        cases taken
        obtain ⟨packet, found, _⟩ := getElem?_wire found
        have loses : s.step D (.lose src dst i) =
            some (s.setChannel src dst ((s.channel src dst).eraseIdx i)) := by
          simp only [step, found]
        exact ⟨_, .next .start trivial loses, wire_leftover s src dst i false⟩
      · cases taken

omit [DecidableEq Host] in
theorem getElem?_channel {src dst : Host} {i : ℕ} {packet : Packet}
    (found : (s.channel src dst)[i]? = some packet) :
    (s.wire.channel src dst)[i]? = some (packet.serialize blank) := by
  rw [wire, List.getElem?_map, found, Option.map_some]

/-- A step of the messages is a step of the bytes, whatever the buffers held. -/
theorem wire_of_step (typed : s.Typed) {e : Event Host} (taken : s.step D e = some s') :
    ∃ e', s.wire.step D e' = some s'.wire := by
  cases e with
  | multicast p data =>
      obtain ⟨running, rfl⟩ := step_multicast taken
      exact ⟨.multicast p data, if_pos running⟩
  | sendData p i recipient =>
      refine ⟨.sendData p i recipient blank, ?_⟩
      simp only [step] at taken
      split at taken
      · rename_i holder found
        split at taken
        · rename_i guard
          cases taken
          rw [wire_post s p _ blank]
          simp only [Wire.step, show (s.wire.service p).dataMsgSender.msgList[i]? = some holder
            from found]
          exact if_pos guard
        · cases taken
      · cases taken
  | sendSeq p i recipient =>
      refine ⟨.sendSeq p i recipient blank, ?_⟩
      simp only [step] at taken
      split at taken
      · rename_i holder found
        split at taken
        · rename_i guard
          cases taken
          rw [wire_post s p _ blank]
          simp only [Wire.step, show (s.wire.service p).seqMsgSender.msgList[i]? = some holder
            from found]
          exact if_pos guard
        · cases taken
      · cases taken
  | receive src dst i copy =>
      refine ⟨.receive src dst i copy false blank, ?_⟩
      obtain ⟨running, packet, found, cases⟩ := step_receive taken
      have listens : (s.service dst).listen D dst
          (UDPReceiver.receive blank (packet.serialize blank)) false =
            (s.service dst).processPacket D dst packet :=
        MulticastService.listen_receive (typed.packets src dst packet (List.mem_of_getElem? found))
          blank blank
      simp only [Wire.step, getElem?_channel found]
      rw [if_pos (show s.wire.running D dst from running), ← wire_leftover]
      set t := s.setChannel src dst (leftover (s.channel src dst) i copy) with ht
      have service : t.wire.service dst = s.service dst := rfl
      rw [service, listens]
      rcases cases with ⟨o, handled, rfl⟩ | ⟨thrown, rfl⟩
      · rw [handled]
        exact congrArg some (wire_commit t blank dst o).symm
      · rw [thrown]
        rfl
  | lose src dst i =>
      refine ⟨.lose src dst i, ?_⟩
      simp only [step] at taken
      split at taken
      · rename_i packet found
        cases taken
        simp only [Wire.step, getElem?_channel found]
        exact congrArg some (wire_leftover s src dst i false).symm
      · cases taken

theorem reachable_of_wire {w : Wire Host} (reachable : w.Reachable D) :
    ∃ s : System Host, s.Reachable D ∧ s.wire = w := by
  refine reachable.simulated (R := fun w (s : System Host) => s.wire = w) rfl ?_
  rintro _ s e w' _ reach rfl _ taken
  exact step_of_wire (typed_of_reachable reach) taken

theorem wire_reachable (reachable : s.Reachable D) : s.wire.Reachable D := by
  have followed : ∃ w : Wire Host, w.Reachable D ∧ s.wire = w := by
    refine reachable.simulated (R := fun (s : System Host) w => s.wire = w) rfl ?_
    rintro s _ e s' before _ rfl _ taken
    obtain ⟨e', taken'⟩ := wire_of_step (typed_of_reachable before) taken
    exact ⟨s'.wire, .next .start trivial taken', rfl⟩
  obtain ⟨_, reach, rfl⟩ := followed
  exact reach

/-- **Refinement.**  The states that the program with its buffers reaches are the states of
`System`, written out in bytes.  In none of them does a check of the receiver's loop fail: it takes
every datagram in flight for a message and hands it to the handler of its kind. -/
theorem datagrams_refine (D : Deployment Host) (w : Wire Host) :
    (w.Reachable D ↔ ∃ s : System Host, s.Reachable D ∧ s.wire = w) ∧
      (w.Reachable D → ∀ a b, ∀ datagram ∈ w.channel a b, ∃ packet : Packet, ∀ memory,
        packet.serialize memory = datagram ∧
          ∀ self (service : MulticastService Host),
            service.listen D self (UDPReceiver.receive memory datagram) false =
              service.processPacket D self packet) := by
  constructor
  · constructor
    · exact reachable_of_wire
    · rintro ⟨s, reachable, rfl⟩
      exact wire_reachable reachable
  · intro reachable a b datagram mem
    obtain ⟨s, reach, rfl⟩ := reachable_of_wire reachable
    obtain ⟨packet, inFlight, rfl⟩ := List.mem_map.mp mem
    have typed := (typed_of_reachable reach).packets a b packet inFlight
    exact ⟨packet, fun memory => ⟨packet.serialize_eq memory blank, fun self service =>
      MulticastService.listen_receive typed blank memory⟩⟩

end System

end GroupComm.Lab1
