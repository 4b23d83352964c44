import GroupComm.Lab1.Message
import GroupComm.Library.Layout

/-!
# `Serde`

How the messages of the multicast and the marker are laid out in a datagram.  The fields of a
struct are numbered in the order of its declaration; a serializer is the list of its stores, in
the order of the code.

* A buffer is as long as the struct (`char buffer[sizeof(T)]`).
* The result of a deserializer is `none` when its `CHECK` fails.
-/

namespace GroupComm.Lab1

structure MarkerMessage where
  type : UInt32
  sender : UInt32
  deriving DecidableEq, Repr

namespace Serde

abbrev Bytes := List UInt8

/-- What has been received, and what stands behind it in the buffer. -/
structure Message where
  received : Bytes
  unset : Bytes

namespace Message

def n (message : Message) : ℕ :=
  message.received.length

def buffer (message : Message) : Bytes :=
  message.received ++ message.unset

/-- `ntohl` of a field of the struct in the buffer. -/
def field (message : Message) (i : ℕ) : UInt32 :=
  networkOrder.load message.buffer i

end Message

def sizeofDataMessage : ℕ := 4 * 4
def sizeofAckMessage : ℕ := 4 * 5
def sizeofSeqMessage : ℕ := 4 * 5
def sizeofSeqAckMessage : ℕ := 4 * 4
def sizeofMarkerMessage : ℕ := 4 * 2

/-- `getMessageType`; the enumeration is its underlying word. -/
def getMessageType (message : Message) : Option UInt32 :=
  if 0 < message.n then some (message.field 0) else none

/-! ## Deserializing -/

def deserializeDataMsg (message : Message) : Option DataMessage :=
  if message.n = sizeofDataMessage then
    some
      { type := message.field 0
        sender := message.field 1
        msgId := message.field 2
        data := message.field 3 }
  else none

def deserializeAckMessage (message : Message) : Option AckMessage :=
  if message.n = sizeofAckMessage then
    some
      { type := message.field 0
        sender := message.field 1
        msgId := message.field 2
        proposedSeq := message.field 3
        proposer := message.field 4 }
  else none

def deserializeSeqMessage (message : Message) : Option SeqMessage :=
  if message.n = sizeofSeqMessage then
    some
      { type := message.field 0
        sender := message.field 1
        msgId := message.field 2
        finalSeq := message.field 3
        finalSeqProposer := message.field 4 }
  else none

def deserializeSeqAckMessage (message : Message) : Option SeqAckMessage :=
  if message.n = sizeofSeqAckMessage then
    some
      { type := message.field 0
        sender := message.field 1
        msgId := message.field 2
        ackSender := message.field 3 }
  else none

def deserializeMarkerMessage (message : Message) : Option MarkerMessage :=
  if message.n = sizeofMarkerMessage then
    some
      { type := message.field 0
        sender := message.field 1 }
  else none

/-! ## Serializing -/

def serializeDataMessage (dataMsg : DataMessage) : Bytes → Bytes :=
  networkOrder.write
    [(3, dataMsg.data), (1, dataMsg.sender), (2, dataMsg.msgId), (0, dataMsg.type)]

def serializeAckMessage (ackMsg : AckMessage) : Bytes → Bytes :=
  networkOrder.write
    [(0, ackMsg.type), (1, ackMsg.sender), (2, ackMsg.msgId), (3, ackMsg.proposedSeq),
      (4, ackMsg.proposer)]

def serializeSeqMessage (seqMsg : SeqMessage) : Bytes → Bytes :=
  networkOrder.write
    [(0, seqMsg.type), (1, seqMsg.sender), (2, seqMsg.msgId), (3, seqMsg.finalSeq),
      (4, seqMsg.finalSeqProposer)]

def serializeSeqAckMessage (seqAckMsg : SeqAckMessage) : Bytes → Bytes :=
  networkOrder.write
    [(0, seqAckMsg.type), (1, seqAckMsg.sender), (2, seqAckMsg.msgId), (3, seqAckMsg.ackSender)]

def serializeMarkerMessage (markerMsg : MarkerMessage) : Bytes → Bytes :=
  networkOrder.write [(0, markerMsg.type), (1, markerMsg.sender)]

/-! ## Round trips -/

/-- The functions for one struct agree. -/
abbrev RoundTrips {M : Type} (size : ℕ) (serialize : M → Bytes → Bytes)
    (deserialize : Message → Option M) (type : M → UInt32) : Prop :=
  WordCodec.RoundTrip size Message.received serialize deserialize getMessageType type

theorem getMessageType_of_received {message : Message} (nonempty : message.received ≠ []) :
    getMessageType message = some (message.field 0) :=
  if_pos (List.length_pos_iff.mpr nonempty)

def dataMessage : Struct UInt32 DataMessage where
  size := 4
  fields m := [m.type, m.sender, m.msgId, m.data]
  build field := ⟨field 0, field 1, field 2, field 3⟩
  width _ := rfl
  injective := by
    rintro ⟨⟩ ⟨⟩ eq
    simpa using eq
  fields_build _ := rfl

def ackMessage : Struct UInt32 AckMessage where
  size := 5
  fields m := [m.type, m.sender, m.msgId, m.proposedSeq, m.proposer]
  build field := ⟨field 0, field 1, field 2, field 3, field 4⟩
  width _ := rfl
  injective := by
    rintro ⟨⟩ ⟨⟩ eq
    simpa using eq
  fields_build _ := rfl

def seqMessage : Struct UInt32 SeqMessage where
  size := 5
  fields m := [m.type, m.sender, m.msgId, m.finalSeq, m.finalSeqProposer]
  build field := ⟨field 0, field 1, field 2, field 3, field 4⟩
  width _ := rfl
  injective := by
    rintro ⟨⟩ ⟨⟩ eq
    simpa using eq
  fields_build _ := rfl

def seqAckMessage : Struct UInt32 SeqAckMessage where
  size := 4
  fields m := [m.type, m.sender, m.msgId, m.ackSender]
  build field := ⟨field 0, field 1, field 2, field 3⟩
  width _ := rfl
  injective := by
    rintro ⟨⟩ ⟨⟩ eq
    simpa using eq
  fields_build _ := rfl

def markerMessage : Struct UInt32 MarkerMessage where
  size := 2
  fields m := [m.type, m.sender]
  build field := ⟨field 0, field 1⟩
  width _ := rfl
  injective := by
    rintro ⟨⟩ ⟨⟩ eq
    simpa using eq
  fields_build _ := rfl

open WordCodec

theorem dataMessage_roundTrips :
    RoundTrips sizeofDataMessage serializeDataMessage deserializeDataMsg DataMessage.type :=
  dataMessage.roundTrip (C := networkOrder)
    (fun _ _ full => write_eq_flatMap full (by simp [dataMessage]) (by simp) (by simp [dataMessage]))
    (fun _ full => if_pos full) (fun _ => rfl) fun _ => getMessageType_of_received

theorem ackMessage_roundTrips :
    RoundTrips sizeofAckMessage serializeAckMessage deserializeAckMessage AckMessage.type :=
  ackMessage.roundTrip (C := networkOrder)
    (fun _ _ full => write_eq_flatMap full (by simp [ackMessage]) (by simp) (by simp [ackMessage]))
    (fun _ full => if_pos full) (fun _ => rfl) fun _ => getMessageType_of_received

theorem seqMessage_roundTrips :
    RoundTrips sizeofSeqMessage serializeSeqMessage deserializeSeqMessage SeqMessage.type :=
  seqMessage.roundTrip (C := networkOrder)
    (fun _ _ full => write_eq_flatMap full (by simp [seqMessage]) (by simp) (by simp [seqMessage]))
    (fun _ full => if_pos full) (fun _ => rfl) fun _ => getMessageType_of_received

theorem seqAckMessage_roundTrips :
    RoundTrips sizeofSeqAckMessage serializeSeqAckMessage deserializeSeqAckMessage
      SeqAckMessage.type :=
  seqAckMessage.roundTrip (C := networkOrder)
    (fun _ _ full =>
      write_eq_flatMap full (by simp [seqAckMessage]) (by simp) (by simp [seqAckMessage]))
    (fun _ full => if_pos full) (fun _ => rfl) fun _ => getMessageType_of_received

theorem markerMessage_roundTrips :
    RoundTrips sizeofMarkerMessage serializeMarkerMessage deserializeMarkerMessage
      MarkerMessage.type :=
  markerMessage.roundTrip (C := networkOrder)
    (fun _ _ full =>
      write_eq_flatMap full (by simp [markerMessage]) (by simp) (by simp [markerMessage]))
    (fun _ full => if_pos full) (fun _ => rfl) fun _ => getMessageType_of_received

end Serde

end GroupComm.Lab1
