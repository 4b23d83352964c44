import GroupComm.Lab2.Listed
import GroupComm.Lab2.Wire

/-!
# The array of a `NewViewMsg`

`NewViewMsg` as it stands in memory: an array of `MAX_PEERS` entries, of which
`numberOfMembers` are in use.  Every access to the array is checked here, and an index outside
of it ends in a `Fault`; the code does not check, and goes on with whatever is there.

* The members of a process are hosts of the hostfile, so they fit (`view_transferred`).
* The count comes from the wire when a view is received.  The decoder stays inside the array
  exactly when it is not above `MAX_PEERS` (`stays_inside_iff`).
-/

namespace GroupComm.Lab2.Wire

open SerDe Transition

/-- What can go wrong with a view. -/
inductive Fault where
  /-- A `CHECK` fails. -/
  | check
  /-- An access to `members` with an index that the array does not have. -/
  | outOfBounds (index : ℕ)
  deriving DecidableEq, Repr

/-- `std::array<PeerId, MAX_PEERS>`. -/
abbrev Members := Vector PeerId MAX_PEERS

structure NewViewMsg where
  msgType : UInt32
  newViewId : ViewId
  numberOfMembers : Int32
  members : Members

/-- A loop that reads `k` entries from index `i` on. -/
def readFrom (members : Members) : ℕ → ℕ → Except Fault (List PeerId)
  | 0, _ => .ok []
  | k + 1, i =>
      if h : i < MAX_PEERS then do
        let rest ← readFrom members k (i + 1)
        .ok (members[i] :: rest)
      else .error (.outOfBounds i)

/-- A loop that writes its values from index `i` on. -/
def writeFrom : List PeerId → ℕ → Members → Except Fault Members
  | [], _, members => .ok members
  | peer :: rest, i, members =>
      if h : i < MAX_PEERS then writeFrom rest (i + 1) (members.set i peer h)
      else .error (.outOfBounds i)

/-- `for (int i = 0; i < numberOfMembers; ++i)` over the entries: the loop of `operator<<`, of
`serializeNewViewMsg` and of `processNewViewMsg`. -/
def NewViewMsg.read (m : NewViewMsg) : Except Fault (List PeerId) :=
  readFrom m.members m.numberOfMembers.toInt.toNat 0

/-- The message of `sendNewViewMsg`, on a stack that holds `slots`. -/
def createNewViewMsg (s : MembershipService Socket) (me : PeerId) (slots : Members) :
    Except Fault NewViewMsg := do
  let members := (s.getGroupMembers me).toList
  let array ← writeFrom members 0 slots
  .ok
    { msgType := MsgTypeEnum.NEW_VIEW.code
      newViewId := s.viewId
      numberOfMembers := Int32.ofNat members.length
      members := array }

def serializeNewViewMsg (m : NewViewMsg) (buffer : Bytes) : Except Fault Bytes := do
  let members ← m.read
  .ok (networkOrder.write
    ([(0, m.msgType), (1, m.newViewId), (2, m.numberOfMembers.toUInt32)] ++
      (members.zipIdx 3).map Prod.swap) buffer)

/-- `deserializeNewViewMsg`, on a stack that holds `slots`. -/
def deserializeNewViewMsg (message : Message) (slots : Members) : Except Fault NewViewMsg :=
  if message.n = sizeofNewViewMsg then do
    let numberOfMembers := (field message 2).toInt32
    let array ← writeFrom
      ((List.range numberOfMembers.toInt.toNat).map fun i => field message (3 + i)) 0 slots
    .ok
      { msgType := field message 0
        newViewId := field message 1
        numberOfMembers := numberOfMembers
        members := array }
  else .error .check

/-- `processNewViewMsg` once the message has been deserialized. -/
def processNewViewMsg (s : MembershipService Socket) (me : PeerId) (m : NewViewMsg) :
    Except Fault (MembershipService Socket) := do
  let members ← m.read
  .ok (s.processNewViewMsg me ⟨m.msgType, m.newViewId, members⟩)

/-! ## The loops -/

theorem writeFrom_of_fits {peers : List PeerId} {i : ℕ} (members : Members)
    (fits : i + peers.length ≤ MAX_PEERS) :
    ∃ array, writeFrom peers i members = .ok array ∧
      (∀ j (less : j < MAX_PEERS), j < i → array[j] = members[j]) ∧
      readFrom array peers.length i = .ok peers := by
  induction peers generalizing i members with
  | nil => exact ⟨members, rfl, fun _ _ _ => rfl, rfl⟩
  | cons peer peers ih =>
      rw [List.length_cons] at fits
      have here : i < MAX_PEERS := by omega
      obtain ⟨array, eq, before, read⟩ := ih (members.set i peer here) (i := i + 1) (by omega)
      refine ⟨array, ?_, fun j less earlier => ?_, ?_⟩
      · rw [writeFrom, dif_pos here, eq]
      · rw [before j less (by omega), Vector.getElem_set_ne _ _ (by omega)]
      · have written : array[i] = peer := by
          rw [before i here (Nat.lt_succ_self i), Vector.getElem_set_self]
        rw [List.length_cons, readFrom, dif_pos here, read, written]
        rfl

/-- Too many values run out of the array at its end. -/
theorem writeFrom_of_exceeds {peers : List PeerId} {i : ℕ} (members : Members)
    (inside : i ≤ MAX_PEERS) (exceeds : MAX_PEERS < i + peers.length) :
    writeFrom peers i members = .error (.outOfBounds MAX_PEERS) := by
  induction peers generalizing i members with
  | nil =>
      rw [List.length_nil] at exceeds
      omega
  | cons peer peers ih =>
      rw [List.length_cons] at exceeds
      by_cases here : i < MAX_PEERS
      · rw [writeFrom, dif_pos here]
        exact ih _ (by omega) (by omega)
      · have last : i = MAX_PEERS := by omega
        rw [writeFrom, dif_neg here, last]

/-! ## Receiving -/

/-- The count that a message announces. -/
def numberOfMembers (message : Message) : ℤ :=
  (field message 2).toInt32.toInt

/-- A message with a count that fits is deserialized, and read to its end. -/
theorem deserializeNewViewMsg_of_fits {message : Message} (size : message.n = sizeofNewViewMsg)
    (fits : numberOfMembers message ≤ MAX_PEERS) (slots : Members) :
    ∃ m, deserializeNewViewMsg message slots = .ok m ∧ m.newViewId = field message 1 ∧
      m.msgType = field message 0 ∧
      m.read = .ok ((List.range (numberOfMembers message).toNat).map
        fun i => field message (3 + i)) := by
  have count : 0 + ((List.range (numberOfMembers message).toNat).map
      fun i => field message (3 + i)).length ≤ MAX_PEERS := by
    rw [List.length_map, List.length_range]
    unfold MAX_PEERS at fits ⊢
    omega
  obtain ⟨array, written, _, read⟩ := writeFrom_of_fits slots count
  refine ⟨⟨field message 0, field message 1, (field message 2).toInt32, array⟩, ?_, rfl, rfl, ?_⟩
  · unfold deserializeNewViewMsg
    rw [if_pos size]
    unfold numberOfMembers at written
    dsimp only
    rw [written]
    rfl
  · rw [List.length_map, List.length_range] at read
    exact read

/-- A message that announces more members than there are runs out of the array. -/
theorem deserializeNewViewMsg_of_exceeds {message : Message}
    (size : message.n = sizeofNewViewMsg) (exceeds : MAX_PEERS < numberOfMembers message)
    (slots : Members) : deserializeNewViewMsg message slots = .error (.outOfBounds MAX_PEERS) := by
  have more : MAX_PEERS < 0 + ((List.range (numberOfMembers message).toNat).map
      fun i => field message (3 + i)).length := by
    rw [List.length_map, List.length_range]
    unfold MAX_PEERS at exceeds ⊢
    omega
  have written := writeFrom_of_exceeds slots (Nat.zero_le _) more
  unfold deserializeNewViewMsg
  rw [if_pos size]
  unfold numberOfMembers at written
  dsimp only
  rw [written]
  rfl

/-- What `SerDe` makes of a message, whatever the stack holds. -/
theorem deserializeNewViewMsg_eq (message : Message) (slots : Members) :
    SerDe.deserializeNewViewMsg message = (do
      let m ← deserializeNewViewMsg message slots
      let members ← m.read
      .ok ⟨m.msgType, m.newViewId, members⟩ : Except Fault Lab2.NewViewMsg).toOption := by
  have count : (word message.buffer 2).toInt32.toInt = numberOfMembers message := by
    rw [numberOfMembers, field, load_eq_word]
  unfold SerDe.deserializeNewViewMsg
  dsimp only
  rw [count]
  by_cases size : message.n = sizeofNewViewMsg
  · by_cases fits : numberOfMembers message ≤ MAX_PEERS
    · obtain ⟨m, decoded, newViewId, msgType, read⟩ :=
        deserializeNewViewMsg_of_fits size fits slots
      rw [if_pos ⟨size, fits⟩, decoded]
      change _ = (do
        let members ← m.read
        .ok ⟨m.msgType, m.newViewId, members⟩ : Except Fault Lab2.NewViewMsg).toOption
      rw [read, msgType, newViewId]
      unfold field
      simp only [load_eq_word]
      rfl
    · rw [if_neg fun both => fits both.2,
        deserializeNewViewMsg_of_exceeds size (not_le.mp fits) slots]
      rfl
  · rw [if_neg fun both => size both.1]
    unfold deserializeNewViewMsg
    rw [if_neg size]
    rfl

/-- The decoder and the consumer access no index outside of the array. -/
def StaysInside (message : Message) : Prop :=
  ∀ slots, deserializeNewViewMsg message slots = .error .check ∨
    ∃ m, deserializeNewViewMsg message slots = .ok m ∧
      ∀ s me, ∃ s', processNewViewMsg s me m = .ok s'

theorem not_stays_inside {message : Message} (size : message.n = sizeofNewViewMsg)
    (exceeds : MAX_PEERS < numberOfMembers message) : ¬ StaysInside message := by
  intro inside
  have fault := deserializeNewViewMsg_of_exceeds size exceeds (Vector.replicate MAX_PEERS 0)
  rcases inside (Vector.replicate MAX_PEERS 0) with rejected | ⟨m, decoded, _⟩
  · rw [fault] at rejected
    cases rejected
  · rw [fault] at decoded
    cases decoded

/-- **Decoding is safe** exactly when the message is rejected for its size or announces no more
members than the array holds. -/
theorem stays_inside_iff (message : Message) :
    StaysInside message ↔
      (message.n = sizeofNewViewMsg → numberOfMembers message ≤ MAX_PEERS) := by
  constructor
  · intro inside size
    by_contra exceeds
    exact not_stays_inside size (not_le.mp exceeds) inside
  · intro fits slots
    by_cases size : message.n = sizeofNewViewMsg
    · obtain ⟨m, decoded, _, _, read⟩ := deserializeNewViewMsg_of_fits size (fits size) slots
      refine Or.inr ⟨m, decoded, fun s me => ?_⟩
      unfold processNewViewMsg
      rw [read]
      exact ⟨_, rfl⟩
    · left
      unfold deserializeNewViewMsg
      rw [if_neg size]

/-- A view of the right size that announces eleven members. -/
def elevenMembers : Message :=
  receive (serialize [3, 7, 11] ++ List.replicate 40 0) (by decide)

theorem eleven_members_overrun : ¬ ∀ message, StaysInside message := fun always =>
  not_stays_inside (by decide +kernel : elevenMembers.n = sizeofNewViewMsg) (by decide +kernel)
    (always elevenMembers)

/-! ## A view on its way -/

theorem read_createNewViewMsg {s : MembershipService Socket} {me : PeerId}
    (fits : (s.getGroupMembers me).toList.length ≤ MAX_PEERS) (slots : Members) :
    ∃ m, createNewViewMsg s me slots = .ok m ∧ m.msgType = MsgTypeEnum.NEW_VIEW.code ∧
      m.newViewId = s.viewId ∧
      m.numberOfMembers = Int32.ofNat (s.getGroupMembers me).toList.length ∧
      m.read = .ok (s.getGroupMembers me).toList := by
  set peers := (s.getGroupMembers me).toList with hpeers
  have inside : 0 + peers.length ≤ MAX_PEERS := by omega
  obtain ⟨array, written, _, read⟩ := writeFrom_of_fits slots inside
  refine ⟨⟨MsgTypeEnum.NEW_VIEW.code, s.viewId, Int32.ofNat peers.length, array⟩, ?_, rfl, rfl,
    rfl, ?_⟩
  · unfold createNewViewMsg
    dsimp only
    rw [← hpeers, written]
    rfl
  · have count : (Int32.ofNat peers.length).toInt.toNat = peers.length := by
      rw [Int32.toInt_ofNat_of_lt]
      · rfl
      · unfold MAX_PEERS at fits
        omega
    unfold NewViewMsg.read
    dsimp only
    rw [count]
    exact read

/-- The bytes are those that `SerDe` writes. -/
theorem serializeNewViewMsg_eq {m : NewViewMsg} {peers : List PeerId} (read : m.read = .ok peers)
    (count : m.numberOfMembers = Int32.ofNat peers.length) (fits : peers.length ≤ MAX_PEERS)
    {buffer : Bytes} (sized : buffer.length = sizeofNewViewMsg) :
    serializeNewViewMsg m buffer =
      .ok (SerDe.serializeNewViewMsg ⟨m.msgType, m.newViewId, peers⟩ buffer) := by
  have words : [(0, m.msgType), (1, m.newViewId), (2, m.numberOfMembers.toUInt32)] ++
      (peers.zipIdx 3).map Prod.swap =
      ((newViewWords ⟨m.msgType, m.newViewId, peers⟩).zipIdx 0).map Prod.swap := by
    rw [count]
    rfl
  have inside : networkOrder.size *
      (0 + (newViewWords ⟨m.msgType, m.newViewId, peers⟩).length) ≤ buffer.length := by
    rw [length_newViewWords, sized]
    change 4 * (0 + (3 + peers.length)) ≤ 4 * (3 + MAX_PEERS)
    omega
  unfold serializeNewViewMsg
  rw [read]
  change Except.ok _ = _
  rw [words, WordCodec.write_zipIdx inside, Nat.mul_zero, Nat.zero_add, List.take_zero,
    List.nil_append]
  rfl

/-- A view that is received is the one that was sent, whatever lay in the buffers. -/
theorem read_deserializeNewViewMsg {v : Lab2.NewViewMsg} {buffer : Bytes} {message : Message}
    (fits : v.members.length ≤ MAX_PEERS) (sized : buffer.length = sizeofNewViewMsg)
    (received : message.received = SerDe.serializeNewViewMsg v buffer) (slots : Members) :
    ∃ m, deserializeNewViewMsg message slots = .ok m ∧ m.newViewId = v.newViewId ∧
      m.read = .ok v.members := by
  have decoded := deserializeNewViewMsg_serialize fits sized received
  rw [deserializeNewViewMsg_eq message slots] at decoded
  cases eq : deserializeNewViewMsg message slots with
  | error fault =>
      rw [eq] at decoded
      cases decoded
  | ok m =>
      rw [eq] at decoded
      refine ⟨m, rfl, ?_⟩
      change (do
        let members ← m.read
        .ok ⟨m.msgType, m.newViewId, members⟩ : Except Fault Lab2.NewViewMsg).toOption = _ at decoded
      cases read : m.read with
      | error fault =>
          rw [read] at decoded
          cases decoded
      | ok members =>
          rw [read] at decoded
          cases decoded
          exact ⟨rfl, rfl⟩

/-- The members of a process fit into the array. -/
theorem members_fit {hosts : List PeerId} (few : hosts.length ≤ MAX_PEERS) {s : World}
    (reach : Reach (World.step hosts) Always {} s) {i : ProcId} (started : i < s.started) :
    ((s.processes i).service.getGroupMembers (s.processes i).me).toList.length ≤ MAX_PEERS := by
  have members := ((listed_of_reach reach).processes i started).members
  have nodup := ((s.processes i).service.getGroupMembers (s.processes i).me).nodup
  exact (List.subperm_of_subset nodup fun p mem => members p mem).length_le.trans few

/-- **A view is transferred faithfully.**  From any process that has been started, on stacks and
in buffers that hold anything, to any member in any state. -/
theorem view_transferred {hosts : List PeerId} (few : hosts.length ≤ MAX_PEERS) {s : World}
    (reach : Reach (World.step hosts) Always {} s) {i : ProcId} (started : i < s.started)
    (slots : Members) :
    ∃ m, createNewViewMsg (s.processes i).service (s.processes i).me slots = .ok m ∧
      ∀ buffer : Bytes, buffer.length = sizeofNewViewMsg →
        ∃ bytes, serializeNewViewMsg m buffer = .ok bytes ∧ bytes.length = sizeofNewViewMsg ∧
          ∀ (message : Message) (slots' : Members), message.received = bytes →
            ∃ m', deserializeNewViewMsg message slots' = .ok m' ∧
              ∀ p ∈ (s.processes i).service.getGroupMembers (s.processes i).me,
                ∀ member : MembershipService Socket,
                  ∃ member', processNewViewMsg member p m' = .ok member' ∧
                    member'.viewId = (s.processes i).service.viewId ∧
                    member'.getGroupMembers p =
                      (s.processes i).service.getGroupMembers (s.processes i).me ∧
                    p ∉ member'.alivePeers := by
  have fits := members_fit few reach started
  obtain ⟨m, created, _, newViewId, count, read⟩ := read_createNewViewMsg fits slots
  refine ⟨m, created, fun buffer sized => ?_⟩
  refine ⟨_, serializeNewViewMsg_eq read count fits sized, length_serializeNewViewMsg fits sized,
    fun message slots' received => ?_⟩
  obtain ⟨m', decoded, newViewId', read'⟩ := read_deserializeNewViewMsg fits sized received slots'
  refine ⟨m', decoded, fun p mem member => ?_⟩
  unfold processNewViewMsg
  rw [read']
  refine ⟨_, rfl, newViewId'.trans newViewId, ?_, ?_⟩
  · exact MembershipService.getGroupMembers_processNewViewMsg (s := member) mem
  · intro own
    exact (OrderedSet.mem_erase.mp own).2 rfl

/-- The leader that has added host 2, with a stack full of ones. -/
theorem view_transferred_unreadView :
    ((unreadViewState.processes 0).service.getGroupMembers 1).toList = [1, 2] ∧
      ∃ m, createNewViewMsg (unreadViewState.processes 0).service (unreadViewState.processes 0).me
          (Vector.replicate MAX_PEERS 4294967295) = .ok m ∧
        ∃ bytes, serializeNewViewMsg m (List.replicate sizeofNewViewMsg 255) = .ok bytes ∧
          bytes.length = sizeofNewViewMsg := by
  have few : ([1, 2, 3, 4, 5] : List PeerId).length ≤ MAX_PEERS := by decide
  have started : (0 : ProcId) < unreadViewState.started := by decide +kernel
  obtain ⟨m, created, sent⟩ := view_transferred few unreadViewState_reachable started
    (Vector.replicate MAX_PEERS 4294967295)
  obtain ⟨bytes, serialized, size, _⟩ :=
    sent (List.replicate sizeofNewViewMsg 255) List.length_replicate
  exact ⟨by decide +kernel, m, created, bytes, serialized, size⟩

end GroupComm.Lab2.Wire
