import GroupComm.Lab1.Serde
import GroupComm.Lab2.Serde

/-!
# The fixed-layout messages on the wire

The structs of `message.h` with the words that stand in memory: an `OperationType` is any
`uint32_t` here.  `messages_roundTrip` is about all structs of fixed length of both programs.

* `Serde.lean` has the messages as the service handles them, with an `OperationTypeEnum`; the
  serializers agree (`serializeRequestMsg_eq`), and the deserializer there is this one followed by
  the conversion (`deserializeRequestMsg_eq`).
-/

namespace GroupComm.Lab2.Wire

open SerDe WordCodec

structure RequestMsg where
  msgType : UInt32
  requestId : RequestId
  currentViewId : ViewId
  operationType : UInt32
  peerId : PeerId
  deriving DecidableEq, Repr

structure NewLeaderMsg where
  msgType : UInt32
  requestId : RequestId
  currentViewId : ViewId
  operationType : UInt32
  deriving DecidableEq, Repr

structure HeartBeatMsg where
  msgType : UInt32
  peerId : PeerId
  deriving DecidableEq, Repr

def sizeofRequestMsg : ℕ := 4 * 5
def sizeofOkMsg : ℕ := 4 * 3
def sizeofHeartBeatMsg : ℕ := 4 * 2
def sizeofNewLeaderMsg : ℕ := 4 * 4

/-- `::ntohl` of a field of the struct in the buffer. -/
def field (message : Message) (i : ℕ) : UInt32 :=
  networkOrder.load message.buffer i

/-! ## Serializing -/

def serializeRequestMsg (requestMsg : RequestMsg) : Bytes → Bytes :=
  networkOrder.write
    [(0, requestMsg.msgType), (1, requestMsg.requestId), (2, requestMsg.currentViewId),
      (3, requestMsg.operationType), (4, requestMsg.peerId)]

def serializeOkMsg (okMsg : OkMsg) : Bytes → Bytes :=
  networkOrder.write [(0, okMsg.msgType), (1, okMsg.requestId), (2, okMsg.currentViewId)]

def serializeHeartBeatMsg (heartBeatMsg : HeartBeatMsg) : Bytes → Bytes :=
  networkOrder.write [(0, heartBeatMsg.msgType), (1, heartBeatMsg.peerId)]

def serializeNewLeaderMsg (newLeaderMsg : NewLeaderMsg) : Bytes → Bytes :=
  networkOrder.write
    [(0, newLeaderMsg.msgType), (1, newLeaderMsg.requestId), (2, newLeaderMsg.currentViewId),
      (3, newLeaderMsg.operationType)]

/-! ## Deserializing -/

def deserializeRequestMsg (message : Message) : Option RequestMsg :=
  if message.n = sizeofRequestMsg then
    some
      { msgType := field message 0
        requestId := field message 1
        currentViewId := field message 2
        operationType := field message 3
        peerId := field message 4 }
  else none

def deserializeOkMsg (message : Message) : Option OkMsg :=
  if message.n = sizeofOkMsg then
    some
      { msgType := field message 0
        requestId := field message 1
        currentViewId := field message 2 }
  else none

def deserializeHeartBeatMsg (message : Message) : Option HeartBeatMsg :=
  if message.n = sizeofHeartBeatMsg then
    some
      { msgType := field message 0
        peerId := field message 1 }
  else none

def deserializeNewLeaderMsg (message : Message) : Option NewLeaderMsg :=
  if message.n = sizeofNewLeaderMsg then
    some
      { msgType := field message 0
        requestId := field message 1
        currentViewId := field message 2
        operationType := field message 3 }
  else none

/-! ## Round trips -/

/-- The functions for one struct agree. -/
abbrev RoundTrips {M : Type} (size : ℕ) (serialize : M → Bytes → Bytes)
    (deserialize : Message → Option M) (type : M → UInt32) : Prop :=
  RoundTrip size Message.received serialize deserialize getMsgType type

/-- The words of a buffer are those that `SerDe` reads. -/
theorem load_eq_word (bytes : Bytes) (i : ℕ) : networkOrder.load bytes i = word bytes i := by
  change NetworkOrder.ntohl (bytes.drop (4 * i)) = word bytes i
  unfold word
  match bytes.drop (4 * i) with
  | [] => rfl
  | [_] => rfl
  | [_, _] => rfl
  | [_, _, _] => rfl
  | _ :: _ :: _ :: _ :: _ => rfl

theorem getMsgType_of_received {message : Message} (nonempty : message.received ≠ []) :
    getMsgType message = some (field message 0) := by
  have some : 0 < message.n := List.length_pos_iff.mpr nonempty
  unfold getMsgType field
  rw [if_pos some, load_eq_word]

def requestMsg : Struct UInt32 RequestMsg where
  size := 5
  fields m := [m.msgType, m.requestId, m.currentViewId, m.operationType, m.peerId]
  build field := ⟨field 0, field 1, field 2, field 3, field 4⟩
  width _ := rfl
  injective := by
    rintro ⟨⟩ ⟨⟩ eq
    simpa using eq
  fields_build _ := rfl

def okMsg : Struct UInt32 OkMsg where
  size := 3
  fields m := [m.msgType, m.requestId, m.currentViewId]
  build field := ⟨field 0, field 1, field 2⟩
  width _ := rfl
  injective := by
    rintro ⟨⟩ ⟨⟩ eq
    simpa using eq
  fields_build _ := rfl

def heartBeatMsg : Struct UInt32 HeartBeatMsg where
  size := 2
  fields m := [m.msgType, m.peerId]
  build field := ⟨field 0, field 1⟩
  width _ := rfl
  injective := by
    rintro ⟨⟩ ⟨⟩ eq
    simpa using eq
  fields_build _ := rfl

def newLeaderMsg : Struct UInt32 NewLeaderMsg where
  size := 4
  fields m := [m.msgType, m.requestId, m.currentViewId, m.operationType]
  build field := ⟨field 0, field 1, field 2, field 3⟩
  width _ := rfl
  injective := by
    rintro ⟨⟩ ⟨⟩ eq
    simpa using eq
  fields_build _ := rfl

theorem serializeRequestMsg_eq_flatMap (m : RequestMsg) (buffer : Bytes)
    (full : buffer.length = sizeofRequestMsg) :
    serializeRequestMsg m buffer = (requestMsg.fields m).flatMap networkOrder.encode :=
  write_eq_flatMap full (by simp [requestMsg]) (by simp) (by simp [requestMsg])

theorem requestMsg_roundTrips :
    RoundTrips sizeofRequestMsg serializeRequestMsg deserializeRequestMsg RequestMsg.msgType :=
  requestMsg.roundTrip (C := networkOrder) serializeRequestMsg_eq_flatMap
    (fun _ full => if_pos full) (fun _ => rfl) fun _ => getMsgType_of_received

theorem okMsg_roundTrips :
    RoundTrips sizeofOkMsg serializeOkMsg deserializeOkMsg OkMsg.msgType :=
  okMsg.roundTrip (C := networkOrder)
    (fun _ _ full => write_eq_flatMap full (by simp [okMsg]) (by simp) (by simp [okMsg]))
    (fun _ full => if_pos full) (fun _ => rfl) fun _ => getMsgType_of_received

theorem heartBeatMsg_roundTrips :
    RoundTrips sizeofHeartBeatMsg serializeHeartBeatMsg deserializeHeartBeatMsg
      HeartBeatMsg.msgType :=
  heartBeatMsg.roundTrip (C := networkOrder)
    (fun _ _ full =>
      write_eq_flatMap full (by simp [heartBeatMsg]) (by simp) (by simp [heartBeatMsg]))
    (fun _ full => if_pos full) (fun _ => rfl) fun _ => getMsgType_of_received

theorem newLeaderMsg_roundTrips :
    RoundTrips sizeofNewLeaderMsg serializeNewLeaderMsg deserializeNewLeaderMsg
      NewLeaderMsg.msgType :=
  newLeaderMsg.roundTrip (C := networkOrder)
    (fun _ _ full =>
      write_eq_flatMap full (by simp [newLeaderMsg]) (by simp) (by simp [newLeaderMsg]))
    (fun _ full => if_pos full) (fun _ => rfl) fun _ => getMsgType_of_received

open Lab1 in
/-- **All structs of fixed length.**  What is serialized is deserialized to the same and has the
type it says, nothing of the buffer is left, and every buffer of the right length is the
serialization of what it is deserialized to. -/
theorem messages_roundTrip :
    Serde.RoundTrips Serde.sizeofDataMessage Serde.serializeDataMessage Serde.deserializeDataMsg
        DataMessage.type ∧
      Serde.RoundTrips Serde.sizeofAckMessage Serde.serializeAckMessage
        Serde.deserializeAckMessage AckMessage.type ∧
      Serde.RoundTrips Serde.sizeofSeqMessage Serde.serializeSeqMessage
        Serde.deserializeSeqMessage SeqMessage.type ∧
      Serde.RoundTrips Serde.sizeofSeqAckMessage Serde.serializeSeqAckMessage
        Serde.deserializeSeqAckMessage SeqAckMessage.type ∧
      Serde.RoundTrips Serde.sizeofMarkerMessage Serde.serializeMarkerMessage
        Serde.deserializeMarkerMessage MarkerMessage.type ∧
      RoundTrips sizeofRequestMsg serializeRequestMsg deserializeRequestMsg RequestMsg.msgType ∧
      RoundTrips sizeofOkMsg serializeOkMsg deserializeOkMsg OkMsg.msgType ∧
      RoundTrips sizeofHeartBeatMsg serializeHeartBeatMsg deserializeHeartBeatMsg
        HeartBeatMsg.msgType ∧
      RoundTrips sizeofNewLeaderMsg serializeNewLeaderMsg deserializeNewLeaderMsg
        NewLeaderMsg.msgType :=
  ⟨Serde.dataMessage_roundTrips, Serde.ackMessage_roundTrips, Serde.seqMessage_roundTrips,
    Serde.seqAckMessage_roundTrips, Serde.markerMessage_roundTrips, requestMsg_roundTrips,
    okMsg_roundTrips, heartBeatMsg_roundTrips, newLeaderMsg_roundTrips⟩

/-! ## The messages as the service handles them -/

/-- The words of a request. -/
def ofRequestMsg (m : Lab2.RequestMsg) : RequestMsg :=
  ⟨m.msgType, m.requestId, m.currentViewId, m.operationType.code, m.peerId⟩

/-- A request, if its `OperationType` is in the enumeration. -/
def RequestMsg.handled (m : RequestMsg) : Option Lab2.RequestMsg :=
  (OperationTypeEnum.ofCode m.operationType).map fun operationType =>
    ⟨m.msgType, m.requestId, m.currentViewId, operationType, m.peerId⟩

theorem handled_ofRequestMsg (m : Lab2.RequestMsg) : (ofRequestMsg m).handled = some m := by
  unfold RequestMsg.handled ofRequestMsg
  rw [OperationTypeEnum.ofCode_code]
  rfl

theorem serializeRequestMsg_eq (m : Lab2.RequestMsg) {buffer : Bytes}
    (full : buffer.length = sizeofRequestMsg) :
    serializeRequestMsg (ofRequestMsg m) buffer = SerDe.serializeRequestMsg m := by
  rw [serializeRequestMsg_eq_flatMap _ _ full]
  rfl

theorem deserializeRequestMsg_eq (message : Message) :
    SerDe.deserializeRequestMsg message =
      (deserializeRequestMsg message).bind RequestMsg.handled := by
  unfold SerDe.deserializeRequestMsg deserializeRequestMsg
  by_cases size : message.n = sizeofRequestMsg
  · have size' : message.n = SerDe.sizeofRequestMsg := size
    rw [if_pos size, if_pos size', Option.bind_some]
    unfold RequestMsg.handled field
    simp only [load_eq_word]
  · have size' : ¬ message.n = SerDe.sizeofRequestMsg := size
    rw [if_neg size, if_neg size', Option.bind_none]

end GroupComm.Lab2.Wire
