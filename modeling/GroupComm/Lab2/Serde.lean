import GroupComm.Lab2.System
import GroupComm.Library.Framing
import GroupComm.Library.Layout

/-!
# `SerDe` and the bytes that a follower receives

The serialized messages of a leader to a follower, `TcpClient::receive` and what
`startAsFollower` makes of it.  In the system every `receive` yields one whole message.
Here it yields whatever a `recv` has taken from the stream, and `received_iff` says for
which cuts of the stream the two agree.

* A serialized struct is a list of words in network order (`htonl`).
* `serializeNewViewMsg` writes as many members as there are into a buffer for `MAX_PEERS`; the
  bytes behind them are whatever the buffer held.
* `LOG` throws on an `OperationType` that is not in the enumeration, so a request with one is
  not handled.
-/

namespace GroupComm.Lab2

open Transition World

def MAX_PEERS : ℕ := 10
def MAX_BUFFER_SIZE : ℕ := 1024

def OperationTypeEnum.code : OperationTypeEnum → UInt32
  | .NOTHING => 0
  | .ADD => 1
  | .DEL => 2
  | .PENDING => 3

def OperationTypeEnum.ofCode : UInt32 → Option OperationTypeEnum
  | 0 => some .NOTHING
  | 1 => some .ADD
  | 2 => some .DEL
  | 3 => some .PENDING
  | _ => none

theorem OperationTypeEnum.ofCode_code (o : OperationTypeEnum) : ofCode o.code = some o := by
  cases o <;> rfl

namespace SerDe

abbrev Bytes := List UInt8

def sizeofRequestMsg : ℕ := 20
def sizeofNewViewMsg : ℕ := 4 * (3 + MAX_PEERS)

/-! ## Words -/

/-- The bytes of `::htonl(w)`. -/
def htonl (w : UInt32) : Bytes :=
  [(w >>> 24).toUInt8, (w >>> 16).toUInt8, (w >>> 8).toUInt8, w.toUInt8]

/-- `::ntohl` of the word with the given bytes. -/
def ntohl (b₀ b₁ b₂ b₃ : UInt8) : UInt32 :=
  (b₀.toUInt32 <<< 24) + (b₁.toUInt32 <<< 16) + (b₂.toUInt32 <<< 8) + b₃.toUInt32

theorem ntohl_htonl (w : UInt32) :
    ntohl (w >>> 24).toUInt8 (w >>> 16).toUInt8 (w >>> 8).toUInt8 w.toUInt8 = w :=
  NetworkOrder.ntohl_htonl w []

/-- The word with index `i`. -/
def word (bytes : Bytes) (i : ℕ) : UInt32 :=
  match bytes.drop (4 * i) with
  | b₀ :: b₁ :: b₂ :: b₃ :: _ => ntohl b₀ b₁ b₂ b₃
  | _ => 0

/-- Words in network order. -/
def serialize (words : List UInt32) : Bytes :=
  words.flatMap htonl

theorem length_serialize (words : List UInt32) : (serialize words).length = 4 * words.length := by
  induction words with
  | nil => rfl
  | cons w words ih =>
      unfold serialize at ih ⊢
      rw [List.flatMap_cons, List.length_append, ih, List.length_cons]
      change 4 + 4 * words.length = _
      omega

theorem word_serialize (words : List UInt32) (rest : Bytes) {i : ℕ} (less : i < words.length) :
    word (serialize words ++ rest) i = words[i] := by
  induction words generalizing i with
  | nil => cases less
  | cons w words ih =>
      cases i with
      | zero => exact ntohl_htonl w
      | succ i =>
          have tail := ih (Nat.lt_of_succ_lt_succ less)
          rw [List.getElem_cons_succ, ← tail]
          rfl

theorem word_append {bytes : Bytes} {i : ℕ} (enough : 4 * (i + 1) ≤ bytes.length)
    (rest : Bytes) : word (bytes ++ rest) i = word bytes i := by
  unfold word
  rw [List.drop_append_of_le_length (by omega)]
  have long : 4 ≤ (bytes.drop (4 * i)).length := by
    rw [List.length_drop]
    omega
  match bytes.drop (4 * i), long with
  | b₀ :: b₁ :: b₂ :: b₃ :: bytes, _ => rfl

/-! ## Serializing -/

def serializeRequestMsg (m : RequestMsg) : Bytes :=
  serialize [m.msgType, m.requestId, m.currentViewId, m.operationType.code, m.peerId]

/-- The words that are written of a `NewViewMsg`. -/
def newViewWords (m : NewViewMsg) : List UInt32 :=
  [m.msgType, m.newViewId, UInt32.ofNat m.members.length] ++ m.members

/-- `serializeNewViewMsg` into a buffer that is not cleared. -/
def serializeNewViewMsg (m : NewViewMsg) (buffer : Bytes) : Bytes :=
  serialize (newViewWords m) ++ buffer.drop (4 * (newViewWords m).length)

/-! ## Receiving and deserializing -/

/-- The `Message` that `TcpClient::receive` returns.  Its buffer begins with the bytes that
have been received; what stands behind them is not set. -/
structure Message where
  received : Bytes
  unset : Bytes
  full : received.length + unset.length = MAX_BUFFER_SIZE

namespace Message

def n (message : Message) : ℕ :=
  message.received.length

def buffer (message : Message) : Bytes :=
  message.received ++ message.unset

end Message

/-- `getMsgType`; the result is `none` when a `CHECK` fails. -/
def getMsgType (message : Message) : Option UInt32 :=
  if 0 < message.n then some (word message.buffer 0) else none

def deserializeRequestMsg (message : Message) : Option RequestMsg :=
  if message.n = sizeofRequestMsg then
    (OperationTypeEnum.ofCode (word message.buffer 3)).map fun operationType =>
      { msgType := word message.buffer 0
        requestId := word message.buffer 1
        currentViewId := word message.buffer 2
        operationType := operationType
        peerId := word message.buffer 4 }
  else none

/-- `deserializeNewViewMsg`.  `numberOfMembers` is an `int`, and with more than `MAX_PEERS` the
array is overrun. -/
def deserializeNewViewMsg (message : Message) : Option NewViewMsg :=
  let numberOfMembers := (word message.buffer 2).toInt32.toInt
  if message.n = sizeofNewViewMsg ∧ numberOfMembers ≤ MAX_PEERS then
    some
      { msgType := word message.buffer 0
        newViewId := word message.buffer 1
        members := (List.range numberOfMembers.toNat).map fun i => word message.buffer (3 + i) }
  else none

/-- What `startAsFollower` makes of a message. -/
def followerReceives (message : Message) : Option Msg := do
  let msgTypeEnum ← getMsgType message
  if msgTypeEnum = MsgTypeEnum.REQUEST.code then
    (deserializeRequestMsg message).map .request
  else if msgTypeEnum = MsgTypeEnum.NEW_VIEW.code then
    (deserializeNewViewMsg message).map .newView
  else none

/-- The messages that the loop of `startAsFollower` handles, or `none` when it aborts. -/
def startAsFollower (messages : List Message) : Option (List Msg) :=
  messages.mapM followerReceives

/-! ## Round trips -/

theorem length_serializeRequestMsg (m : RequestMsg) :
    (serializeRequestMsg m).length = sizeofRequestMsg := by
  unfold serializeRequestMsg
  rw [length_serialize]
  rfl

theorem length_newViewWords (m : NewViewMsg) :
    (newViewWords m).length = 3 + m.members.length := by
  unfold newViewWords
  rw [List.length_append]
  rfl

theorem length_serializeNewViewMsg {m : NewViewMsg} {buffer : Bytes}
    (fits : m.members.length ≤ MAX_PEERS) (sized : buffer.length = sizeofNewViewMsg) :
    (serializeNewViewMsg m buffer).length = sizeofNewViewMsg := by
  unfold serializeNewViewMsg
  rw [List.length_append, length_serialize, List.length_drop, sized, length_newViewWords]
  unfold sizeofNewViewMsg
  omega

theorem deserializeRequestMsg_serialize {message : Message} {m : RequestMsg}
    (received : message.received = serializeRequestMsg m) :
    deserializeRequestMsg message = some m := by
  have size : message.n = sizeofRequestMsg := by
    unfold Message.n
    rw [received, length_serializeRequestMsg]
  have field {i : ℕ} (less : i < 5) : word message.buffer i =
      [m.msgType, m.requestId, m.currentViewId, m.operationType.code, m.peerId][i] := by
    unfold Message.buffer
    rw [received]
    exact word_serialize _ _ less
  unfold deserializeRequestMsg
  rw [if_pos size, field (i := 0) (by decide), field (i := 1) (by decide),
    field (i := 2) (by decide), field (i := 3) (by decide), field (i := 4) (by decide)]
  change (OperationTypeEnum.ofCode m.operationType.code).map _ = _
  rw [OperationTypeEnum.ofCode_code]
  rfl

theorem deserializeNewViewMsg_serialize {message : Message} {m : NewViewMsg} {buffer : Bytes}
    (fits : m.members.length ≤ MAX_PEERS) (sized : buffer.length = sizeofNewViewMsg)
    (received : message.received = serializeNewViewMsg m buffer) :
    deserializeNewViewMsg message = some m := by
  have size : message.n = sizeofNewViewMsg := by
    unfold Message.n
    rw [received, length_serializeNewViewMsg fits sized]
  have field {i : ℕ} (less : i < (newViewWords m).length) :
      word message.buffer i = (newViewWords m)[i] := by
    unfold Message.buffer
    rw [received, serializeNewViewMsg, List.append_assoc]
    exact word_serialize _ _ less
  have long := length_newViewWords m
  have count : (word message.buffer 2).toInt32.toInt = m.members.length := by
    rw [field (by omega)]
    change (UInt32.ofNat m.members.length).toInt32.toInt = _
    rw [UInt32.toInt32_ofNat', Int32.toInt_ofNat_of_lt]
    unfold MAX_PEERS at fits
    omega
  have members : (List.range m.members.length).map (fun i => word message.buffer (3 + i)) =
      m.members := by
    apply List.ext_getElem
    · rw [List.length_map, List.length_range]
    · intro i _ less
      rw [List.getElem_map, List.getElem_range, field (by omega)]
      unfold newViewWords
      rw [List.getElem_append_right (by simp)]
      simp
  unfold deserializeNewViewMsg
  dsimp only
  rw [count, if_pos ⟨size, by exact_mod_cast fits⟩, Int.toNat_natCast, members,
    field (by omega), field (by omega)]
  rfl

/-! ## What the leader writes to a follower -/

inductive Written where
  | request (m : RequestMsg) (typed : m.msgType = MsgTypeEnum.REQUEST.code)
  /-- The buffer is what `sendNewViewMsg` finds in the array it serializes into. -/
  | newView (m : NewViewMsg) (typed : m.msgType = MsgTypeEnum.NEW_VIEW.code)
    (fits : m.members.length ≤ MAX_PEERS) (buffer : Bytes)
    (sized : buffer.length = sizeofNewViewMsg)

namespace Written

def msg : Written → Msg
  | request m _ => .request m
  | newView m _ _ _ _ => .newView m

def bytes : Written → Bytes
  | request m _ => serializeRequestMsg m
  | newView m _ _ buffer _ => serializeNewViewMsg m buffer

def msgType : Written → MsgTypeEnum
  | request _ _ => .REQUEST
  | newView _ _ _ _ _ => .NEW_VIEW

/-- The size that the deserializer of the message asks for. -/
def size : Written → ℕ
  | request _ _ => sizeofRequestMsg
  | newView _ _ _ _ _ => sizeofNewViewMsg

theorem length_bytes (w : Written) : w.bytes.length = w.size := by
  cases w with
  | request m _ => exact length_serializeRequestMsg m
  | newView _ _ fits _ sized => exact length_serializeNewViewMsg fits sized

theorem four_le_size (w : Written) : 4 ≤ w.size := by
  cases w with
  | request _ _ => exact (by decide : 4 ≤ sizeofRequestMsg)
  | newView _ _ _ _ _ => exact (by decide : 4 ≤ sizeofNewViewMsg)

theorem word_bytes (w : Written) : word w.bytes 0 = w.msgType.code := by
  cases w with
  | request m typed =>
      have first : 0 < [m.msgType, m.requestId, m.currentViewId, m.operationType.code,
        m.peerId].length := Nat.zero_lt_succ _
      have word_eq := word_serialize _ [] first
      rw [List.append_nil] at word_eq
      exact word_eq.trans typed
  | newView m typed _ _ _ =>
      have first : 0 < (newViewWords m).length := Nat.zero_lt_succ _
      exact (word_serialize _ _ first).trans typed

end Written

theorem getMsgType_written {message : Message} {w : Written}
    (received : message.received = w.bytes) : getMsgType message = some w.msgType.code := by
  have long : 4 * (0 + 1) ≤ w.bytes.length := by
    rw [w.length_bytes]
    exact w.four_le_size
  unfold getMsgType Message.n Message.buffer
  rw [received, if_pos (by omega), word_append long, w.word_bytes]

/-- One whole message is handled as what it is. -/
theorem followerReceives_written {message : Message} {w : Written}
    (received : message.received = w.bytes) : followerReceives message = some w.msg := by
  unfold followerReceives
  rw [getMsgType_written received]
  cases w with
  | request m typed =>
      change (deserializeRequestMsg message).map Msg.request = _
      rw [deserializeRequestMsg_serialize received]
      rfl
  | newView m typed fits buffer sized =>
      change (deserializeNewViewMsg message).map Msg.newView = _
      rw [deserializeNewViewMsg_serialize fits sized received]
      rfl

/-- What is handled has the type and the size of a request or of a new view. -/
theorem size_of_followerReceives {message : Message} (handled : followerReceives message ≠ none) :
    word message.buffer 0 = MsgTypeEnum.REQUEST.code ∧ message.n = sizeofRequestMsg ∨
      word message.buffer 0 = MsgTypeEnum.NEW_VIEW.code ∧ message.n = sizeofNewViewMsg := by
  unfold followerReceives getMsgType at handled
  split at handled
  · change (if _ then _ else _) ≠ none at handled
    split at handled
    · rename_i type
      left
      refine ⟨type, ?_⟩
      by_contra size
      unfold deserializeRequestMsg at handled
      rw [if_neg size] at handled
      exact handled rfl
    · split at handled
      · rename_i type
        right
        refine ⟨type, ?_⟩
        by_contra size
        unfold deserializeNewViewMsg at handled
        dsimp only at handled
        rw [if_neg fun both => size both.1] at handled
        exact handled rfl
      · exact absurd rfl handled
  · exact absurd rfl handled

/-- **Nothing but one message is accepted** at a place of the stream where a message begins. -/
theorem received_eq_of_followerReceives {message : Message} {w : Written} {rest rest' : Bytes}
    (handled : followerReceives message ≠ none)
    (begins : message.received ++ rest = w.bytes ++ rest') : message.received = w.bytes := by
  have sizes := size_of_followerReceives handled
  have long : 4 * (0 + 1) ≤ message.received.length := by
    unfold Message.n at sizes
    rcases sizes with ⟨_, size⟩ | ⟨_, size⟩
    · rw [size]
      decide
    · rw [size]
      decide
  have type : word message.buffer 0 = w.msgType.code := by
    have long' : 4 * (0 + 1) ≤ w.bytes.length := by
      rw [w.length_bytes]
      exact w.four_le_size
    calc word message.buffer 0 = word message.received 0 := word_append long _
      _ = word (w.bytes ++ rest') 0 := by rw [← begins, word_append long]
      _ = w.msgType.code := by rw [word_append long', w.word_bytes]
  have size : message.received.length = w.bytes.length := by
    rw [w.length_bytes]
    rw [type] at sizes
    cases w with
    | request _ _ =>
        rcases sizes with ⟨_, size⟩ | ⟨other, _⟩
        · exact size
        · cases other
    | newView _ _ _ _ _ =>
        rcases sizes with ⟨other, _⟩ | ⟨_, size⟩
        · cases other
        · exact size
  exact (List.append_inj begins size).1

/-- The messages of a leader to a follower as the follower reads them. -/
def followerFraming : Framing UInt8 Message Written Msg where
  encode := Written.bytes
  units := Message.received
  decode := followerReceives
  content := Written.msg
  encode_ne_nil w := by
    intro empty
    have size := w.length_bytes
    have long := w.four_le_size
    rw [empty] at size
    change 0 = w.size at size
    omega
  decode_encode := followerReceives_written
  exact := received_eq_of_followerReceives

/-- **Message boundaries.**  Whatever a leader writes to a follower and however the stream is
cut, the follower handles the messages written, in order and without a failing `CHECK`,
exactly when every `recv` returns the bytes of one message. -/
theorem handled_iff_aligned {written : List Written} {messages : List Message}
    (cuts : followerFraming.Cuts messages written) :
    startAsFollower messages = some (written.map Written.msg) ↔
      messages.map Message.received = written.map Written.bytes :=
  Framing.decoded_iff cuts

/-! ## Two messages in one `recv`

Host 2 has joined the leader on host 1 and has not yet read its first view, when the leader
sends the request to add host 3. -/

def unreadViewRun : List Event :=
  [.start 1] ++ mainSteps 0 7 ++ [.start 2] ++ mainSteps 1 1 ++ mainSteps 0 10 ++
  [.start 3] ++ mainSteps 2 1 ++ mainSteps 0 4

theorem unreadViewRun_through :
    (replay (World.step [1, 2, 3, 4, 5]) {} unreadViewRun).isSome = true := by
  decide +kernel

def unreadViewState : World :=
  (replay (World.step [1, 2, 3, 4, 5]) {} unreadViewRun).get unreadViewRun_through

theorem unreadViewState_reachable :
    Reach (World.step [1, 2, 3, 4, 5]) Always {} unreadViewState :=
  .of_isSome (allowedAlong_always _ _) unreadViewRun_through

/-- What the leader has written to host 2. -/
def unreadWritten : List Written :=
  [.newView ⟨3, 2, [1, 2]⟩ rfl (by decide) (List.replicate 52 0) rfl,
    .request ⟨1, 3, 2, .ADD, 3⟩ rfl]

theorem unreadViewState_inbox :
    unreadViewState.inbox ⟨0, true⟩ = unreadWritten.map Written.msg := by
  decide +kernel

/-- A `recv` into a buffer of zeros. -/
def receive (received : Bytes) (fits : received.length ≤ MAX_BUFFER_SIZE) : Message where
  received := received
  unset := List.replicate (MAX_BUFFER_SIZE - received.length) 0
  full := by
    rw [List.length_replicate]
    omega

theorem handled_iff_aligned_unread :
    let reads := unreadWritten.pmap (fun w fits => receive w.bytes fits)
      (by decide +kernel : ∀ w ∈ unreadWritten, w.bytes.length ≤ MAX_BUFFER_SIZE)
    startAsFollower reads = some (unreadWritten.map Written.msg) ↔
      reads.map Message.received = unreadWritten.map Written.bytes :=
  handled_iff_aligned ⟨by decide +kernel, by decide +kernel⟩

/-- **The view and the request in one `recv`.**  Both are announced as a view of 72 bytes, and
the `CHECK` of the size fails. -/
theorem unread_view_joined_to_request :
    ¬ ∀ (hosts : List PeerId) (s : World) (k : Socket) (written : List Written)
      (messages : List Message), Reach (World.step hosts) Always {} s →
      s.inbox k = written.map Written.msg → followerFraming.Cuts messages written →
        startAsFollower messages = some (written.map Written.msg) := by
  intro always
  have together : startAsFollower
      [receive (unreadWritten.flatMap Written.bytes) (by decide +kernel)] = none := by
    decide +kernel
  have handled := always _ _ _ _ _ unreadViewState_reachable unreadViewState_inbox
    (⟨by decide +kernel, by decide +kernel⟩ : followerFraming.Cuts
      [receive (unreadWritten.flatMap Written.bytes) (by decide +kernel)] unreadWritten)
  rw [together] at handled
  cases handled

end SerDe

end GroupComm.Lab2
