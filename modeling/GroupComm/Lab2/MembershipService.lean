import GroupComm.Library.OrderedSet
import GroupComm.Lab2.Message

/-!
# The data of `MembershipService`

The members of the class and the functions that only read and write them: creating and
processing messages, and the two halves of `modifyGroupMembership` around its exchange of
messages.  What blocks, sends or receives is built on top of these.

`me` is `PeerInfo::getMyPeerId()`, and `Client` stands for the connections that
`tcpClientMap` holds.  Left out is the flag of the leader failure demo, off by default, with
which a leader skips peer 2 and exits in the middle of a removal.
-/

namespace GroupComm.Lab2

/-- `getDummyPendingRequestMsg`. -/
def getDummyPendingRequestMsg : RequestMsg where
  msgType := MsgTypeEnum.REQUEST.code
  requestId := 0
  currentViewId := 0
  operationType := .NOTHING
  peerId := 0

/-- A view: its identifier and the members of the group. -/
structure View where
  viewId : ViewId
  members : OrderedSet PeerId
  deriving DecidableEq

structure MembershipService (Client : Type) where
  leaderPeerId : PeerId := 1
  requestCounter : RequestId := 1
  viewId : ViewId := 1
  alivePeers : OrderedSet PeerId := ∅
  tcpClientMap : PeerId → Option Client := fun _ => none
  pendingRequest : RequestMsg := getDummyPendingRequestMsg
  leaderCrashed : Bool := false

namespace MembershipService

variable {Client : Type}

/-- `getGroupMembers`. -/
def getGroupMembers (s : MembershipService Client) (me : PeerId) : OrderedSet PeerId :=
  s.alivePeers.insert me

/-- The view that `printNewlyInstalledView` logs. -/
def installedView (s : MembershipService Client) (me : PeerId) : View :=
  ⟨s.viewId, s.getGroupMembers me⟩

/-! ## Creating messages -/

/-- The state that `createRequestMsg` leaves. -/
def countRequest (s : MembershipService Client) : MembershipService Client :=
  { s with requestCounter := s.requestCounter + 1 }

/-- `createRequestMsg`; the counter is advanced first. -/
def createRequestMsg (s : MembershipService Client) (newPeerId : PeerId)
    (operationType : OperationTypeEnum) : RequestMsg where
  msgType := MsgTypeEnum.REQUEST.code
  requestId := s.requestCounter + 1
  currentViewId := s.viewId
  operationType := operationType
  peerId := newPeerId

/-- `createOkMsg`. -/
def createOkMsg (s : MembershipService Client) : OkMsg where
  msgType := MsgTypeEnum.OK.code
  currentViewId := s.viewId
  requestId := s.pendingRequest.requestId

/-- `createNewLeaderMsg`. -/
def createNewLeaderMsg (s : MembershipService Client) : NewLeaderMsg where
  msgType := MsgTypeEnum.NEW_LEADER.code
  requestId := s.requestCounter + 1
  currentViewId := s.viewId
  operationType := .PENDING

/-- The message that `sendNewViewMsg` sends. -/
def createNewViewMsg (s : MembershipService Client) (me : PeerId) : NewViewMsg where
  msgType := MsgTypeEnum.NEW_VIEW.code
  newViewId := s.viewId
  members := (s.getGroupMembers me).toList

/-- The message that `sendPendingRequestMsg` sends. -/
def createPendingRequestMsg (s : MembershipService Client) : RequestMsg :=
  { s.pendingRequest with currentViewId := s.viewId }

/-! ## Processing messages -/

/-- `processRequestMsg`. -/
def processRequestMsg (s : MembershipService Client) (requestMsg : RequestMsg) :
    MembershipService Client :=
  { s with pendingRequest := requestMsg }

/-- `processNewViewMsg`. -/
def processNewViewMsg (s : MembershipService Client) (me : PeerId) (newViewMsg : NewViewMsg) :
    MembershipService Client :=
  { s with
    viewId := newViewMsg.newViewId
    alivePeers := (OrderedSet.ofList newViewMsg.members).erase me
    pendingRequest := getDummyPendingRequestMsg }

/-! ## The two halves of `modifyGroupMembership` -/

/-- Before the requests are sent: a peer to be deleted is removed at once. -/
def beginModification (s : MembershipService Client) (peerId : PeerId)
    (operationType : OperationTypeEnum) : MembershipService Client :=
  if operationType = .DEL then
    { s with
      tcpClientMap := Function.update s.tcpClientMap peerId none
      alivePeers := s.alivePeers.erase peerId }
  else s

/-- After the answers have arrived: a peer to be added is inserted, and the view changes. -/
def endModification (s : MembershipService Client) (peerId : PeerId)
    (operationType : OperationTypeEnum) : MembershipService Client :=
  { s with
    alivePeers := if operationType = .ADD then s.alivePeers.insert peerId else s.alivePeers
    viewId := s.viewId + 1 }

/-- The map with a connection for `peerId`; `insert` keeps the one that is there. -/
def insertClient (s : MembershipService Client) (peerId : PeerId) (client : Client) :
    MembershipService Client :=
  { s with
    tcpClientMap := Function.update s.tcpClientMap peerId
      (some ((s.tcpClientMap peerId).getD client)) }

theorem insertClient_cases {s : MembershipService Client} {peerId p : PeerId} {client k : Client}
    (found : (s.insertClient peerId client).tcpClientMap p = some k) :
    s.tcpClientMap p = some k ∨ p = peerId ∧ k = client := by
  unfold insertClient at found
  dsimp only at found
  rw [Function.update_apply] at found
  split at found
  · rename_i same
    subst same
    cases old : s.tcpClientMap p with
    | none =>
        rw [old] at found
        cases found
        exact Or.inr ⟨rfl, rfl⟩
    | some k' =>
        rw [old] at found
        exact Or.inl found
  · exact Or.inl found

/-- Every peer the process believes alive has a connection. -/
def Connected (s : MembershipService Client) : Prop :=
  ∀ p ∈ s.alivePeers, s.tcpClientMap p ≠ none

/-! ## What the functions do to the view -/

/-- A member that processes the message of `sendNewViewMsg` has the members of the sender. -/
theorem getGroupMembers_processNewViewMsg {leader s : MembershipService Client}
    {leaderId me : PeerId} (mem : me ∈ leader.getGroupMembers leaderId) :
    (s.processNewViewMsg me (leader.createNewViewMsg leaderId)).getGroupMembers me =
      leader.getGroupMembers leaderId := by
  simp only [processNewViewMsg, createNewViewMsg, getGroupMembers, OrderedSet.ofList_toList]
  exact OrderedSet.insert_erase mem

theorem installedView_processNewViewMsg {leader s : MembershipService Client}
    {leaderId me : PeerId} (mem : me ∈ leader.getGroupMembers leaderId) :
    (s.processNewViewMsg me (leader.createNewViewMsg leaderId)).installedView me =
      leader.installedView leaderId := by
  rw [installedView, getGroupMembers_processNewViewMsg mem]
  rfl

end MembershipService

end GroupComm.Lab2
