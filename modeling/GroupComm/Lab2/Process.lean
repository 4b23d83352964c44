import GroupComm.Lab2.FailureDetector
import GroupComm.Lab2.Takeover

/-!
# One process

A process runs `MembershipService::start` on its main thread, and `handlePeerFailure` on the
thread of its failure detector.  The state of a thread says where in the code it stands;
`Process.effect` says what the thread does next: something of its own, or an operation on a
socket, which only the network can carry out (`Effect`).

* Both threads run `modifyGroupMembership`, so its states are an `Operation` of their own.
* Every block under `alivePeersMutex` is entered by a step of its own, which has to wait
  while the other thread is inside such a block, and what it sends or receives inside the
  block are steps of their own again.
* An exception that nothing catches ends the process, in whichever thread it is thrown.

The three last fields of a process only record what has happened.
-/

namespace GroupComm.Lab2

open MembershipService

/-- One of the two ends of a connection: a `TcpClient`. -/
structure Socket where
  connection : ℕ
  /-- Whether this is the end that called `connect`. -/
  connector : Bool
  deriving DecidableEq

def Socket.peer (k : Socket) : Socket :=
  { k with connector := !k.connector }

@[simp] theorem Socket.peer_peer (k : Socket) : k.peer.peer = k := by
  simp [Socket.peer]

theorem Socket.peer_ne (k : Socket) : k.peer ≠ k := by
  intro same
  have flipped : (!k.connector) = k.connector := congrArg Socket.connector same
  simp at flipped

theorem Socket.peer_injective {k k' : Socket} (same : k.peer = k'.peer) : k = k' := by
  rw [← k.peer_peer, same, k'.peer_peer]

/-- Where a thread stands in `modifyGroupMembership`; the last three are `sendNewViewMsg`. -/
inductive Operation where
  | call (peerId : PeerId) (operationType : OperationTypeEnum)
  /-- Before the lock, with the request made. -/
  | lock (requestMsg : RequestMsg)
  | sendRequestMsg (requestMsg : RequestMsg) (rest : List PeerId)
  | waitForOkMsg (requestMsg : RequestMsg) (rest : List PeerId)
  | printNewlyInstalledView
  | sendNewViewMsg
  /-- Before the lock, with `newViewId` read. -/
  | lockView (newViewId : ViewId)
  | deliver (newViewMsg : NewViewMsg) (rest : List PeerId)
  deriving DecidableEq

/-- Whether `alivePeersMutex` is held. -/
def Operation.locked : Operation → Bool
  | sendRequestMsg _ _ => true
  | waitForOkMsg _ _ => true
  | deliver _ _ => true
  | _ => false

/-- Where the main thread stands. -/
inductive MainState where
  | findLeader (rest : List PeerId)
  /-- No leader has been found. -/
  | startAsLeader
  | accept
  | addPeer (operation : Operation)
  | startAsFollower
  | sendOkMsg
  | waitForLeaderCrash
  /-- `leaderCrashed` has been taken back, and `alivePeersGetter` not yet been called. -/
  | handleLeaderCrash
  | sendNewLeaderMsg (newLeaderMsg : NewLeaderMsg) (rest : List PeerId)
    (tempAlivePeers : OrderedSet PeerId)
  /-- Connected to `peer`, which has not yet been sent the message. -/
  | introduce (newLeaderMsg : NewLeaderMsg) (peer : PeerId) (client : Socket)
    (rest : List PeerId) (tempAlivePeers : OrderedSet PeerId)
  | waitForPendingRequestMsg (rest : List PeerId) (pendingRequestMsg : RequestMsg)
  | completeRequest (operation : Operation)
  | waitForNewLeaderMsg
  /-- A connection has been accepted that should bring a `NewLeaderMsg`. -/
  | greet (leaderClient : Socket)
  | sendPendingRequestMsg
  | stopped
  deriving DecidableEq

namespace MainState

/-- Whether `alivePeersMutex` is held. -/
def locked : MainState → Bool
  | addPeer operation => operation.locked
  | sendNewLeaderMsg _ _ _ => true
  | introduce _ _ _ _ _ => true
  | waitForPendingRequestMsg _ _ => true
  | completeRequest operation => operation.locked
  | _ => false

/-- Whether a `TcpServer` is open: from `startAsLeader` on, and in `waitForNewLeaderMsg`. -/
def listening : MainState → Bool
  | accept => true
  | addPeer _ => true
  | waitForNewLeaderMsg => true
  | _ => false

end MainState

structure Process where
  /-- `PeerInfo::getMyPeerId()`. -/
  me : PeerId
  service : MembershipService Socket := {}
  main : MainState := .stopped
  /-- The callback that the failure detector is running. -/
  detector : Option Operation := none
  heartBeats : PeerHeartBeatMap := {}
  /-- The views installed so far. -/
  installed : List View := []
  /-- The peers added and deleted so far. -/
  changes : List (PeerId × OperationTypeEnum) := []
  /-- The peer for which `leaderCrashed` was last set. -/
  suspect : Option PeerId := none

/-- A view that a leader has made, and the connection of the peer it has added by it. -/
structure Creation where
  view : View
  added : Option Socket

inductive Thread where
  | main | detector
  deriving DecidableEq

def Thread.other : Thread → Thread
  | main => detector
  | detector => main

theorem Thread.other_ne (t : Thread) : t.other ≠ t := by
  cases t with
  | main => exact fun same => by cases same
  | detector => exact fun same => by cases same

theorem Thread.eq_other {t t' : Thread} (apart : t' ≠ t) : t' = t.other := by
  cases t with
  | main =>
      cases t' with
      | main => exact absurd rfl apart
      | detector => rfl
  | detector =>
      cases t' with
      | main => rfl
      | detector => exact absurd rfl apart

/-- What a thread does next. -/
inductive Effect where
  | silent (next : Process) (created : List Creation)
  | send (client : Socket) (m : Msg) (sent failed : Process)
  | receive (client : Socket) (received : Msg → Process) (lost : Process)
  | connect (peer : PeerId) (connected : Socket → Process) (refused : Process)
  /-- `accept`, with `TcpServer::close` right after it or not. -/
  | accept (close : Bool) (accepted : Socket → PeerId → Process)
  | blocked

namespace Process

/-- An exception that nothing catches. -/
def terminate (pr : Process) : Process :=
  { pr with main := .stopped, detector := none }

def running (pr : Process) : Bool :=
  decide (pr.main ≠ .stopped)

/-- The state of a thread in the middle of `modifyGroupMembership`. -/
def operation (pr : Process) : Thread → Option Operation
  | .main =>
      match pr.main with
      | .addPeer operation => some operation
      | .completeRequest operation => some operation
      | _ => none
  | .detector => pr.detector

/-- The process with a thread further on in `modifyGroupMembership`. -/
def setOperation (pr : Process) (operation : Operation) : Thread → Process
  | .main =>
      match pr.main with
      | .completeRequest _ => { pr with main := .completeRequest operation }
      | _ => { pr with main := .addPeer operation }
  | .detector => { pr with detector := some operation }

/-- The process after a thread has left `modifyGroupMembership`; a new leader then goes on to
`startAsLeader`. -/
def finishOperation (pr : Process) : Thread → Process
  | .main =>
      match pr.main with
      | .completeRequest _ =>
          { pr with service := { pr.service with leaderPeerId := pr.me }, main := .accept }
      | _ => { pr with main := .accept }
  | .detector => { pr with detector := none }

/-- Whether the other thread is inside a block under `alivePeersMutex`. -/
def lockTaken (pr : Process) : Thread → Bool
  | .main => pr.detector.any Operation.locked
  | .detector => pr.main.locked

/-- The view of the process is installed. -/
def install (pr : Process) : Process :=
  { pr with installed := pr.installed ++ [pr.service.installedView pr.me] }

/-! ## `modifyGroupMembership` -/

/-- A send to a peer in `alivePeers`; `tcpClientMap.at` throws when there is no connection. -/
def sendTo (pr : Process) (peerId : PeerId) (m : Msg) (sent : Process) : Effect :=
  match pr.service.tcpClientMap peerId with
  | some client => .send client m sent pr.terminate
  | none => .silent pr.terminate []

/-- The first block, entered with the request made. -/
def beginOperation (pr : Process) (requestMsg : RequestMsg) : Process :=
  { pr with
    service := pr.service.beginModification requestMsg.peerId requestMsg.operationType
    changes :=
      if requestMsg.operationType = .DEL then pr.changes ++ [(requestMsg.peerId, .DEL)]
      else pr.changes }

/-- The end of the first block: the new view. -/
def endOperation (pr : Process) (requestMsg : RequestMsg) : Process :=
  install
    { pr with
      service := pr.service.endModification requestMsg.peerId requestMsg.operationType
      changes :=
        if requestMsg.operationType = .ADD then pr.changes ++ [(requestMsg.peerId, .ADD)]
        else pr.changes }

def creation (pr : Process) (requestMsg : RequestMsg) : Creation where
  view := (pr.endOperation requestMsg).service.installedView pr.me
  added := if requestMsg.operationType = .ADD then pr.service.tcpClientMap requestMsg.peerId
    else none

/-- What a thread inside `modifyGroupMembership` does next. -/
def operationEffect (pr : Process) (t : Thread) : Operation → Effect
  | .call peerId operationType =>
      .silent ({ pr with service := pr.service.countRequest }.setOperation
        (.lock (pr.service.createRequestMsg peerId operationType)) t) []
  | .lock requestMsg =>
      if pr.lockTaken t then .blocked
      else
        let pr := pr.beginOperation requestMsg
        .silent (pr.setOperation (.sendRequestMsg requestMsg pr.service.alivePeers.toList) t) []
  | .sendRequestMsg requestMsg (peerId :: rest) =>
      pr.sendTo peerId (.request requestMsg)
        (pr.setOperation (.sendRequestMsg requestMsg rest) t)
  | .sendRequestMsg requestMsg [] =>
      .silent (pr.setOperation (.waitForOkMsg requestMsg pr.service.alivePeers.toList) t) []
  | .waitForOkMsg requestMsg (peerId :: rest) =>
      match pr.service.tcpClientMap peerId with
      | some client => .receive client
          (fun m => match m with
            | .ok okMsg =>
                if okMsg.requestId = requestMsg.requestId then
                  pr.setOperation (.waitForOkMsg requestMsg rest) t
                else pr.terminate
            | _ => pr.terminate)
          pr.terminate
      | none => .silent pr.terminate []
  | .waitForOkMsg requestMsg [] =>
      .silent ((pr.endOperation requestMsg).setOperation .printNewlyInstalledView t)
        [pr.creation requestMsg]
  | .printNewlyInstalledView =>
      if pr.lockTaken t then .blocked else .silent (pr.setOperation .sendNewViewMsg t) []
  | .sendNewViewMsg => .silent (pr.setOperation (.lockView pr.service.viewId) t) []
  | .lockView newViewId =>
      if pr.lockTaken t then .blocked
      else
        let newViewMsg := { pr.service.createNewViewMsg pr.me with newViewId := newViewId }
        .silent (pr.setOperation (.deliver newViewMsg pr.service.alivePeers.toList) t) []
  | .deliver newViewMsg (peerId :: rest) =>
      pr.sendTo peerId (.newView newViewMsg) (pr.setOperation (.deliver newViewMsg rest) t)
  | .deliver _ [] => .silent (pr.finishOperation t) []

/-! ## The main thread -/

/-- A message to the leader; `failed` is what catches a `TransportException`. -/
def sendToLeader (pr : Process) (m : Msg) (sent failed : Process) : Effect :=
  match pr.service.tcpClientMap pr.service.leaderPeerId with
  | some client => .send client m sent failed
  | none => .silent pr.terminate []

/-- `startAsFollower`, with a message from the leader. -/
def followerReceives (pr : Process) : Msg → Process
  | .request m => { pr with service := pr.service.processRequestMsg m, main := .sendOkMsg }
  | .newView m => install { pr with service := pr.service.processNewViewMsg pr.me m }
  | .ok _ => pr.terminate
  | .newLeader _ => pr.terminate

/-- `handleLeaderCrash`, up to the first message. -/
def handleLeaderCrash (pr : Process) : Process :=
  let service := { pr.service with tcpClientMap := fun _ => none }
  if nextLeader pr.me pr.heartBeats.getAlivePeers = pr.me then
    let alivePeers := service.alivePeers.erase service.leaderPeerId
    { pr with
      service := { service with alivePeers := alivePeers }.countRequest
      main := .sendNewLeaderMsg service.createNewLeaderMsg alivePeers.toList ∅ }
  else { pr with service := service, main := .waitForNewLeaderMsg }

/-- What the main thread does next. -/
def mainEffect (pr : Process) : Effect :=
  match pr.main with
  | .findLeader (peerId :: rest) =>
      if peerId = pr.me then .silent { pr with main := .findLeader rest } []
      else .connect peerId
        (fun client =>
          { pr with
            service := { pr.service with leaderPeerId := peerId }.insertClient peerId client
            main := .startAsFollower })
        { pr with main := .findLeader rest }
  | .findLeader [] =>
      .silent
        { pr with service := { pr.service with leaderPeerId := pr.me }, main := .startAsLeader } []
  | .startAsLeader =>
      if pr.lockTaken .main then .blocked
      else .silent { pr.install with main := .accept } [⟨pr.service.installedView pr.me, none⟩]
  | .accept => .accept false fun client newPeerId =>
      { pr with
        service := pr.service.insertClient newPeerId client
        main := .addPeer (.call newPeerId .ADD) }
  | .addPeer operation => pr.operationEffect .main operation
  | .startAsFollower =>
      match pr.service.tcpClientMap pr.service.leaderPeerId with
      | some leaderTcpClient =>
          if pr.lockTaken .main then .blocked
          else .receive leaderTcpClient pr.followerReceives { pr with main := .waitForLeaderCrash }
      | none => .silent pr.terminate []
  | .sendOkMsg =>
      pr.sendToLeader (.ok pr.service.createOkMsg) { pr with main := .startAsFollower }
        { pr with main := .waitForLeaderCrash }
  | .waitForLeaderCrash =>
      if pr.service.leaderCrashed then
        .silent
          { pr with
            service := { pr.service with leaderCrashed := false }
            main := .handleLeaderCrash } []
      else .blocked
  | .handleLeaderCrash =>
      -- a callback runs under the mutex that `alivePeersGetter` takes
      if pr.detector = none then .silent pr.handleLeaderCrash [] else .blocked
  | .sendNewLeaderMsg newLeaderMsg (peer :: rest) tempAlivePeers =>
      .connect peer
        (fun client => { pr with main := .introduce newLeaderMsg peer client rest tempAlivePeers })
        { pr with main := .sendNewLeaderMsg newLeaderMsg rest tempAlivePeers }
  | .sendNewLeaderMsg _ [] tempAlivePeers =>
      .silent
        { pr with
          service := { pr.service with alivePeers := tempAlivePeers }
          main := .waitForPendingRequestMsg tempAlivePeers.toList getDummyPendingRequestMsg } []
  | .introduce newLeaderMsg peer client rest tempAlivePeers =>
      .send client (.newLeader newLeaderMsg)
        { pr with
          service := pr.service.insertClient peer client
          main := .sendNewLeaderMsg newLeaderMsg rest (tempAlivePeers.insert peer) }
        { pr with main := .sendNewLeaderMsg newLeaderMsg rest tempAlivePeers }
  | .waitForPendingRequestMsg (peer :: rest) pendingRequestMsg =>
      match pr.service.tcpClientMap peer with
      | some client => .receive client
          (fun m => match m with
            | .request requestMsg =>
                { pr with
                  main := .waitForPendingRequestMsg rest
                    (if requestMsg.operationType ≠ .NOTHING then requestMsg
                      else pendingRequestMsg) }
            | _ => pr.terminate)
          pr.terminate
      | none => .silent { pr with main := .waitForPendingRequestMsg rest pendingRequestMsg } []
  | .waitForPendingRequestMsg [] pendingRequestMsg =>
      if pendingRequestMsg.operationType ≠ .NOTHING then
        .silent
          { pr with
            main := .completeRequest
              (.call pendingRequestMsg.peerId pendingRequestMsg.operationType) } []
      else
        .silent { pr.install with main := .completeRequest .sendNewViewMsg }
          [⟨pr.service.installedView pr.me, none⟩]
  | .completeRequest operation => pr.operationEffect .main operation
  | .waitForNewLeaderMsg => .accept true fun leaderClient leaderPeerId =>
      { pr with
        service := { pr.service with leaderPeerId := leaderPeerId }.insertClient leaderPeerId
          leaderClient
        main := .greet leaderClient }
  | .greet leaderClient => .receive leaderClient
      (fun m => match m with
        | .newLeader _ => { pr with main := .sendPendingRequestMsg }
        | _ => pr.terminate)
      pr.terminate
  | .sendPendingRequestMsg =>
      pr.sendToLeader (.request pr.service.createPendingRequestMsg)
        { pr with main := .startAsFollower } pr.terminate
  | .stopped => .blocked

/-- What a thread does next. -/
def effect (pr : Process) : Thread → Effect
  | .main => pr.mainEffect
  | .detector =>
      match pr.detector with
      | some operation => pr.operationEffect .detector operation
      | none => .blocked

/-! ## The failure detector -/

/-- `handlePeerFailure`, up to the call of `modifyGroupMembership` at a leader. -/
def handlePeerFailure (pr : Process) (crashedPeerId : PeerId) : Process :=
  if pr.me = pr.service.leaderPeerId then
    { pr with detector := some (.call crashedPeerId .DEL) }
  else if crashedPeerId = pr.service.leaderPeerId then
    { pr with
      service := { pr.service with leaderCrashed := true }
      suspect := some crashedPeerId }
  else pr

/-- A heartbeat of `p` arrives. -/
def heartBeat (pr : Process) (p : PeerId) : Process :=
  { pr with heartBeats := pr.heartBeats.receive p }

/-- A tick that goes through the map in the given order. -/
def tick (pr : Process) (order : List PeerId) : Process :=
  let detected := pr.heartBeats.detect order
  let pr := { pr with heartBeats := detected.1 }
  match detected.2 with
  | some crashedPeerId => pr.handlePeerFailure crashedPeerId
  | none => pr

/-! ## Going on with an operation

Only the place of the thread changes, and what finishing does to `leaderPeerId`. -/

section Fields

variable (pr : Process) (operation : Operation) (t : Thread)

theorem operation_cases {pr : Process} {operation : Operation} {t : Thread}
    (place : pr.operation t = some operation) :
    t = .main ∧ pr.main = .addPeer operation ∨
      t = .main ∧ pr.main = .completeRequest operation ∨
      t = .detector ∧ pr.detector = some operation := by
  cases t with
  | main =>
      unfold Process.operation at place
      dsimp only at place
      split at place
      · rename_i main
        cases place
        exact Or.inl ⟨rfl, main⟩
      · rename_i main
        cases place
        exact Or.inr (Or.inl ⟨rfl, main⟩)
      · cases place
  | detector => exact Or.inr (Or.inr ⟨rfl, place⟩)

@[simp] theorem me_setOperation : (pr.setOperation operation t).me = pr.me := by
  unfold setOperation
  split
  · split <;> rfl
  · rfl

@[simp] theorem service_setOperation :
    (pr.setOperation operation t).service = pr.service := by
  unfold setOperation
  split
  · split <;> rfl
  · rfl

@[simp] theorem installed_setOperation :
    (pr.setOperation operation t).installed = pr.installed := by
  unfold setOperation
  split
  · split <;> rfl
  · rfl

@[simp] theorem changes_setOperation :
    (pr.setOperation operation t).changes = pr.changes := by
  unfold setOperation
  split
  · split <;> rfl
  · rfl

@[simp] theorem heartBeats_setOperation :
    (pr.setOperation operation t).heartBeats = pr.heartBeats := by
  unfold setOperation
  split
  · split <;> rfl
  · rfl

@[simp] theorem suspect_setOperation :
    (pr.setOperation operation t).suspect = pr.suspect := by
  unfold setOperation
  split
  · split <;> rfl
  · rfl

@[simp] theorem me_finishOperation : (pr.finishOperation t).me = pr.me := by
  unfold finishOperation
  split
  · split <;> rfl
  · rfl

@[simp] theorem installed_finishOperation : (pr.finishOperation t).installed = pr.installed := by
  unfold finishOperation
  split
  · split <;> rfl
  · rfl

@[simp] theorem changes_finishOperation : (pr.finishOperation t).changes = pr.changes := by
  unfold finishOperation
  split
  · split <;> rfl
  · rfl

theorem service_finishOperation : ∃ leaderPeerId,
    (pr.finishOperation t).service = { pr.service with leaderPeerId := leaderPeerId } := by
  unfold finishOperation
  split
  · split
    · exact ⟨_, rfl⟩
    · exact ⟨_, rfl⟩
  · exact ⟨_, rfl⟩

end Fields

/-- The other thread is not in a block when the lock is free. -/
theorem locked_eq_false_of_free {pr : Process} {t t' : Thread} {operation : Operation}
    (free : pr.lockTaken t = false) (apart : t' ≠ t) (place : pr.operation t' = some operation) :
    operation.locked = false := by
  cases t with
  | main =>
      rw [Thread.eq_other apart] at place
      change pr.detector = some operation at place
      change pr.detector.any Operation.locked = false at free
      rwa [place] at free
  | detector =>
      rw [Thread.eq_other apart] at place
      change pr.main.locked = false at free
      rcases operation_cases place with ⟨_, main⟩ | ⟨_, main⟩ | ⟨main, _⟩
      · rwa [main] at free
      · rwa [main] at free
      · cases main

theorem setOperation_addPeer {pr : Process} {operation : Operation}
    (main : pr.main = .addPeer operation) (next : Operation) :
    pr.setOperation next .main = { pr with main := .addPeer next } := by
  unfold setOperation
  dsimp only
  rw [main]

theorem setOperation_completeRequest {pr : Process} {operation : Operation}
    (main : pr.main = .completeRequest operation) (next : Operation) :
    pr.setOperation next .main = { pr with main := .completeRequest next } := by
  unfold setOperation
  dsimp only
  rw [main]

theorem finishOperation_addPeer {pr : Process} {operation : Operation}
    (main : pr.main = .addPeer operation) :
    pr.finishOperation .main = { pr with main := .accept } := by
  unfold finishOperation
  dsimp only
  rw [main]

theorem finishOperation_completeRequest {pr : Process} {operation : Operation}
    (main : pr.main = .completeRequest operation) :
    pr.finishOperation .main =
      { pr with service := { pr.service with leaderPeerId := pr.me }, main := .accept } := by
  unfold finishOperation
  dsimp only
  rw [main]

/-- The main thread stays where it is or is in `modifyGroupMembership`. -/
theorem main_setOperation (pr : Process) (operation : Operation) (t : Thread) :
    (pr.setOperation operation t).main = pr.main ∨
      (pr.setOperation operation t).main = .addPeer operation ∨
        (pr.setOperation operation t).main = .completeRequest operation := by
  unfold setOperation
  split
  · split
    · exact Or.inr (Or.inr rfl)
    · exact Or.inr (Or.inl rfl)
  · exact Or.inl rfl

theorem main_finishOperation (pr : Process) (t : Thread) :
    (pr.finishOperation t).main = pr.main ∨ (pr.finishOperation t).main = .accept := by
  unfold finishOperation
  split
  · split
    · exact Or.inr rfl
    · exact Or.inr rfl
  · exact Or.inl rfl

/-- The thread that goes on is at its next place, and the other thread is where it was. -/
theorem operation_setOperation {pr data : Process} {operation : Operation} {t : Thread}
    (place : pr.operation t = some operation) (main : data.main = pr.main)
    (detector : data.detector = pr.detector) (next : Operation) (t' : Thread) :
    (data.setOperation next t).operation t' =
      if t' = t then some next else pr.operation t' := by
  rcases operation_cases place with ⟨rfl, here⟩ | ⟨rfl, here⟩ | ⟨rfl, here⟩
  · rw [setOperation_addPeer (main.trans here)]
    cases t' with
    | main => rfl
    | detector => exact detector
  · rw [setOperation_completeRequest (main.trans here)]
    cases t' with
    | main => rfl
    | detector => exact detector
  · cases t' with
    | main =>
        unfold Process.operation setOperation
        dsimp only
        rw [main]
        rfl
    | detector => rfl

theorem operation_finishOperation {pr : Process} {operation : Operation} {t : Thread}
    (place : pr.operation t = some operation) (t' : Thread) :
    (pr.finishOperation t).operation t' = if t' = t then none else pr.operation t' := by
  rcases operation_cases place with ⟨rfl, here⟩ | ⟨rfl, here⟩ | ⟨rfl, here⟩
  · rw [finishOperation_addPeer here]
    cases t' <;> rfl
  · rw [finishOperation_completeRequest here]
    cases t' <;> rfl
  · cases t' <;> rfl

/-- A tick only changes the map, the flag and the callback that is running. -/
theorem tick_eq (pr : Process) (order : List PeerId) :
    ∃ leaderCrashed detector heartBeats suspect, pr.tick order =
      { pr with
        service := { pr.service with leaderCrashed := leaderCrashed }
        detector := detector
        heartBeats := heartBeats
        suspect := suspect } := by
  unfold tick
  dsimp only
  split
  · unfold handlePeerFailure
    split
    · exact ⟨pr.service.leaderCrashed, _, _, pr.suspect, rfl⟩
    · split
      · exact ⟨true, pr.detector, _, _, rfl⟩
      · exact ⟨pr.service.leaderCrashed, pr.detector, _, pr.suspect, rfl⟩
  · exact ⟨pr.service.leaderCrashed, pr.detector, _, pr.suspect, rfl⟩

end Process

end GroupComm.Lab2
