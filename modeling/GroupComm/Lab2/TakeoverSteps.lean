import GroupComm.Lab2.Connections
import GroupComm.Lab2.Suspicion

/-!
# The takeover, step by step

`takeOver` is a function of the state of the new leader and of what its peers do.  The main thread
of a process does the same in steps, between which its failure detector goes on.

* `left` is what `takeOver` has still to do at a place of the thread.  A step that the peers meet
  (`Meets`) does a part of it (`outcome_step`); a tick of the failure detector, which can only set
  `leaderCrashed` again, does nothing.
* `learn`: whatever a step does, there are peers that meet it.
* `takeOver_iff_proceeds`: the ends of the runs of a process that get to `accept` are those of
  `takeOver`.  `takeOver_of_run` says it of the runs of the whole system.
-/

namespace GroupComm.Lab2

open MembershipService World Transition

namespace MembershipService

variable {Client : Type} (me : PeerId) (peers : Peers Client)

/-- The state at the end, and what is sent until then. -/
abbrev Left (Client : Type) := Option (MembershipService Client × List (PeerId × Msg))

/-- Something is sent before the rest. -/
def sendFirst (sent : List (PeerId × Msg)) (rest : Left Client) : Left Client :=
  rest.map fun r => (r.1, sent ++ r.2)

/-- The rest of a loop that sends `m`. -/
def sendRest (s : MembershipService Client) (m : Msg) (rest : List PeerId) :
    Option (List (PeerId × Msg)) :=
  rest.mapM fun peerId => (s.tcpClientMap peerId).map fun _ => (peerId, m)

/-- The rest of the loop of `waitForOkMsg`. -/
def okRest (answer : PeerId → RequestMsg → OkMsg) (s : MembershipService Client)
    (requestMsg : RequestMsg) (rest : List PeerId) : Bool :=
  rest.all fun peerId =>
    (s.tcpClientMap peerId).isSome &&
      decide ((answer peerId requestMsg).requestId = requestMsg.requestId)

/-- The rest of the loop of `sendNewLeaderMsg`. -/
def connectRest (connect : PeerId → Option Client) (s : MembershipService Client)
    (tempAlivePeers : OrderedSet PeerId) :
    List PeerId → MembershipService Client × OrderedSet PeerId
  | [] => (s, tempAlivePeers)
  | peer :: rest =>
      match connect peer with
      | some client =>
          connectRest connect (s.insertClient peer client) (tempAlivePeers.insert peer) rest
      | none => connectRest connect s tempAlivePeers rest

/-- The rest of the loop of `waitForPendingRequestMsg`. -/
def pendingRest (pendingRequest : PeerId → RequestMsg) (s : MembershipService Client)
    (pendingRequestMsg : RequestMsg) : List PeerId → RequestMsg
  | [] => pendingRequestMsg
  | peer :: rest =>
      if (s.tcpClientMap peer).isSome ∧ (pendingRequest peer).operationType ≠ .NOTHING then
        s.pendingRest pendingRequest (pendingRequest peer) rest
      else s.pendingRest pendingRequest pendingRequestMsg rest

/-- `sendNewViewMsg`, with the view made and some of the peers still to be sent it. -/
def sendViews (s : MembershipService Client) (newViewMsg : NewViewMsg) (rest : List PeerId) :
    Left Client :=
  (s.sendRest (.newView newViewMsg) rest).map fun views => (s, views)

/-- `modifyGroupMembership` from the answers on. -/
def collectOks (s : MembershipService Client) (requestMsg : RequestMsg) (rest : List PeerId) :
    Left Client :=
  if s.okRest peers.answer requestMsg rest then
    let s := s.endModification requestMsg.peerId requestMsg.operationType
    s.sendViews (s.createNewViewMsg me) s.alivePeers.toList
  else none

/-- `modifyGroupMembership` from the requests on. -/
def sendRequests (s : MembershipService Client) (requestMsg : RequestMsg) (rest : List PeerId) :
    Left Client :=
  (s.sendRest (.request requestMsg) rest).bind fun requests =>
    sendFirst requests (s.collectOks me peers requestMsg s.alivePeers.toList)

/-- What is left of `modifyGroupMembership`, or of `sendNewViewMsg`, at a place of the thread. -/
def operationLeft (s : MembershipService Client) : Operation → Left Client
  | .call peerId operationType =>
      let during := s.modifying peerId operationType
      during.sendRequests me peers (s.createRequestMsg peerId operationType)
        during.alivePeers.toList
  | .lock requestMsg =>
      let s := s.beginModification requestMsg.peerId requestMsg.operationType
      s.sendRequests me peers requestMsg s.alivePeers.toList
  | .sendRequestMsg requestMsg rest => s.sendRequests me peers requestMsg rest
  | .waitForOkMsg requestMsg rest => s.collectOks me peers requestMsg rest
  | .printNewlyInstalledView => s.sendViews (s.createNewViewMsg me) s.alivePeers.toList
  | .sendNewViewMsg => s.sendViews (s.createNewViewMsg me) s.alivePeers.toList
  | .lockView newViewId =>
      s.sendViews { s.createNewViewMsg me with newViewId := newViewId } s.alivePeers.toList
  | .deliver newViewMsg rest => s.sendViews newViewMsg rest

/-- The end of `handleLeaderCrash`. -/
def lead (r : MembershipService Client × List (PeerId × Msg)) :
    MembershipService Client × List (PeerId × Msg) :=
  ({ r.1 with leaderPeerId := me }, r.2)

/-- `handleLeaderCrash` once the pending request is known. -/
def completeLeft (s : MembershipService Client) (pendingRequestMsg : RequestMsg) : Left Client :=
  if pendingRequestMsg.operationType ≠ .NOTHING then
    (s.operationLeft me peers
      (.call pendingRequestMsg.peerId pendingRequestMsg.operationType)).map (lead me)
  else (s.operationLeft me peers .sendNewViewMsg).map (lead me)

/-- `handleLeaderCrash` once every peer has been tried. -/
def reconnectedLeft (s : MembershipService Client) (tempAlivePeers : OrderedSet PeerId) :
    Left Client :=
  let s := { s with alivePeers := tempAlivePeers }
  s.completeLeft me peers
    (s.pendingRest peers.pendingRequest getDummyPendingRequestMsg tempAlivePeers.toList)

/-- What is left of `handleLeaderCrash` at a place of the main thread. -/
def left (s : MembershipService Client) : MainState → Left Client
  | .sendNewLeaderMsg _ rest tempAlivePeers =>
      let r := s.connectRest peers.connect tempAlivePeers rest
      r.1.reconnectedLeft me peers r.2
  | .introduce _ peer _ rest tempAlivePeers =>
      let r := s.connectRest peers.connect tempAlivePeers (peer :: rest)
      r.1.reconnectedLeft me peers r.2
  | .waitForPendingRequestMsg rest pendingRequestMsg =>
      s.completeLeft me peers (s.pendingRest peers.pendingRequest pendingRequestMsg rest)
  | .completeRequest operation => (s.operationLeft me peers operation).map (lead me)
  | .accept => some (s, [])
  | _ => none

@[simp] theorem sendFirst_nil (rest : Left Client) : sendFirst [] rest = rest := by
  cases rest <;> rfl

theorem sendFirst_append (sent sent' : List (PeerId × Msg)) (rest : Left Client) :
    sendFirst (sent ++ sent') rest = sendFirst sent (sendFirst sent' rest) := by
  cases rest with
  | none => rfl
  | some r =>
      unfold sendFirst
      simp only [Option.map_some, List.append_assoc]

theorem map_lead_sendFirst (sent : List (PeerId × Msg)) (rest : Left Client) :
    (sendFirst sent rest).map (lead me) = sendFirst sent (rest.map (lead me)) := by
  cases rest <;> rfl

/-! ## One more turn of a loop -/

theorem sendRest_cons {s : MembershipService Client} {peerId : PeerId} {client : Client}
    (found : s.tcpClientMap peerId = some client) (m : Msg) (rest : List PeerId) :
    s.sendRest m (peerId :: rest) = (s.sendRest m rest).map fun l => (peerId, m) :: l := by
  unfold sendRest
  rw [List.mapM_cons, found]
  cases rest.mapM fun peerId => (s.tcpClientMap peerId).map fun _ => (peerId, m) <;> rfl

theorem sendRest_cons_missing {s : MembershipService Client} {peerId : PeerId}
    (missing : s.tcpClientMap peerId = none) (m : Msg) (rest : List PeerId) :
    s.sendRest m (peerId :: rest) = none :=
  mapM_eq_none_of_mem List.mem_cons_self (by rw [missing]; rfl)

theorem pendingRest_cons {s : MembershipService Client} {peer : PeerId} {client : Client}
    (found : s.tcpClientMap peer = some client) (pendingRequestMsg : RequestMsg)
    (rest : List PeerId) :
    s.pendingRest peers.pendingRequest pendingRequestMsg (peer :: rest) =
      s.pendingRest peers.pendingRequest
        (if (peers.pendingRequest peer).operationType ≠ .NOTHING then peers.pendingRequest peer
          else pendingRequestMsg) rest := by
  rw [pendingRest, found]
  split
  · rename_i both
    rw [if_pos both.2]
  · rename_i either
    rw [if_neg fun held => either ⟨rfl, held⟩]

theorem pendingRest_cons_missing {s : MembershipService Client} {peer : PeerId}
    (missing : s.tcpClientMap peer = none) (pendingRequestMsg : RequestMsg)
    (rest : List PeerId) :
    s.pendingRest peers.pendingRequest pendingRequestMsg (peer :: rest) =
      s.pendingRest peers.pendingRequest pendingRequestMsg rest := by
  rw [pendingRest, missing]
  rfl

theorem sendRequests_cons {s : MembershipService Client} {peerId : PeerId} {client : Client}
    (found : s.tcpClientMap peerId = some client) (requestMsg : RequestMsg)
    (rest : List PeerId) :
    s.sendRequests me peers requestMsg (peerId :: rest) =
      sendFirst [(peerId, .request requestMsg)] (s.sendRequests me peers requestMsg rest) := by
  unfold sendRequests
  rw [sendRest_cons found]
  cases s.sendRest (.request requestMsg) rest with
  | none => rfl
  | some requests => exact sendFirst_append [_] requests _

theorem sendViews_cons {s : MembershipService Client} {peerId : PeerId} {client : Client}
    (found : s.tcpClientMap peerId = some client) (newViewMsg : NewViewMsg)
    (rest : List PeerId) :
    s.sendViews newViewMsg (peerId :: rest) =
      sendFirst [(peerId, .newView newViewMsg)] (s.sendViews newViewMsg rest) := by
  unfold sendViews
  rw [sendRest_cons found]
  cases s.sendRest (.newView newViewMsg) rest <;> rfl

theorem collectOks_cons {s : MembershipService Client} {peerId : PeerId} {client : Client}
    (found : s.tcpClientMap peerId = some client) {requestMsg : RequestMsg}
    (expected : (peers.answer peerId requestMsg).requestId = requestMsg.requestId)
    (rest : List PeerId) :
    s.collectOks me peers requestMsg (peerId :: rest) =
      s.collectOks me peers requestMsg rest := by
  unfold collectOks okRest
  rw [List.all_cons, found, expected]
  simp

/-- Without a connection, or with the answer to another request, the process ends. -/
theorem collectOks_cons_failed {s : MembershipService Client} {peerId : PeerId}
    {requestMsg : RequestMsg}
    (failed : s.tcpClientMap peerId = none ∨
      (peers.answer peerId requestMsg).requestId ≠ requestMsg.requestId)
    (rest : List PeerId) :
    s.collectOks me peers requestMsg (peerId :: rest) = none := by
  unfold collectOks okRest
  rw [List.all_cons]
  rcases failed with missing | other
  · simp [missing]
  · simp [other]

/-! ## Peers that a loop no longer asks -/

theorem connectRest_update {connect : PeerId → Option Client} {peer : PeerId}
    {found : Option Client} {rest : List PeerId} (asked : peer ∉ rest)
    (s : MembershipService Client) (tempAlivePeers : OrderedSet PeerId) :
    s.connectRest (Function.update connect peer found) tempAlivePeers rest =
      s.connectRest connect tempAlivePeers rest := by
  induction rest generalizing s tempAlivePeers with
  | nil => rfl
  | cons other rest ih =>
      have apart := List.ne_of_not_mem_cons asked
      have asked := List.not_mem_of_not_mem_cons asked
      rw [connectRest, connectRest, Function.update_of_ne (Ne.symm apart)]
      split
      · exact ih asked _ _
      · exact ih asked _ _

theorem pendingRest_update {pendingRequest : PeerId → RequestMsg} {peer : PeerId}
    {requestMsg : RequestMsg} {rest : List PeerId} (asked : peer ∉ rest)
    (s : MembershipService Client) (pendingRequestMsg : RequestMsg) :
    s.pendingRest (Function.update pendingRequest peer requestMsg) pendingRequestMsg rest =
      s.pendingRest pendingRequest pendingRequestMsg rest := by
  induction rest generalizing pendingRequestMsg with
  | nil => rfl
  | cons other rest ih =>
      have apart := List.ne_of_not_mem_cons asked
      have asked := List.not_mem_of_not_mem_cons asked
      rw [pendingRest, pendingRest, Function.update_of_ne (Ne.symm apart)]
      split
      · exact ih asked _
      · exact ih asked _

theorem okRest_update {answer : PeerId → RequestMsg → OkMsg} {peer : PeerId}
    {answers : RequestMsg → OkMsg} {rest : List PeerId} (asked : peer ∉ rest)
    (s : MembershipService Client) (requestMsg : RequestMsg) :
    s.okRest (Function.update answer peer answers) requestMsg rest =
      s.okRest answer requestMsg rest := by
  induction rest with
  | nil => rfl
  | cons other rest ih =>
      have apart := List.ne_of_not_mem_cons asked
      have asked := List.not_mem_of_not_mem_cons asked
      have same := ih asked
      unfold okRest at same ⊢
      rw [List.all_cons, List.all_cons, same, Function.update_of_ne (Ne.symm apart)]

/-! ## The flag of the failure detector

`leaderCrashed` may be set again while a takeover goes on; nothing in it reads the flag. -/

def unsuspecting (s : MembershipService Client) : MembershipService Client :=
  { s with leaderCrashed := false }

theorem unsuspecting_beginModification (s : MembershipService Client) (peerId : PeerId)
    (operationType : OperationTypeEnum) :
    (s.beginModification peerId operationType).unsuspecting =
      s.unsuspecting.beginModification peerId operationType := by
  unfold beginModification
  split <;> rfl

/-! ## At the beginning -/

theorem sendNewLeaderMsg_eq (s : MembershipService Client) :
    s.sendNewLeaderMsg peers =
      { (s.countRequest.connectRest peers.connect ∅ s.alivePeers.toList).1 with
        alivePeers := (s.countRequest.connectRest peers.connect ∅ s.alivePeers.toList).2 } := by
  have loop : ∀ (l : List PeerId) (s : MembershipService Client) (temp : OrderedSet PeerId),
      l.foldl (fun (acc : MembershipService Client × OrderedSet PeerId) peer =>
        match peers.connect peer with
        | some client => (acc.1.insertClient peer client, acc.2.insert peer)
        | none => acc) (s, temp) = s.connectRest peers.connect temp l := by
    intro l
    induction l with
    | nil => exact fun _ _ => rfl
    | cons peer l ih =>
        intro s temp
        rw [List.foldl_cons, connectRest]
        cases peers.connect peer with
        | some client => exact ih _ _
        | none => exact ih _ _
  have whole := loop s.alivePeers.toList s.countRequest ∅
  exact congrArg (fun acc : MembershipService Client × OrderedSet PeerId =>
    { acc.1 with alivePeers := acc.2 }) whole

theorem waitForPendingRequestMsg_eq (s : MembershipService Client) :
    s.waitForPendingRequestMsg peers =
      s.pendingRest peers.pendingRequest getDummyPendingRequestMsg s.alivePeers.toList := by
  have loop : ∀ (l : List PeerId) (start : RequestMsg),
      l.foldl (fun pendingRequestMsg peer =>
        if (s.tcpClientMap peer).isSome then
          if (peers.pendingRequest peer).operationType ≠ .NOTHING then peers.pendingRequest peer
          else pendingRequestMsg
        else pendingRequestMsg) start = s.pendingRest peers.pendingRequest start l := by
    intro l
    induction l with
    | nil => exact fun _ => rfl
    | cons peer l ih =>
        intro start
        rw [List.foldl_cons, pendingRest, ih]
        by_cases connected : (s.tcpClientMap peer).isSome
        · by_cases held : (peers.pendingRequest peer).operationType ≠ .NOTHING
          · rw [if_pos connected, if_pos held, if_pos ⟨connected, held⟩]
          · rw [if_pos connected, if_neg held, if_neg fun both => held both.2]
        · rw [if_neg connected, if_neg fun both => connected both.1]
  exact loop _ _

theorem modifyGroupMembership_eq_left (s : MembershipService Client) (peerId : PeerId)
    (operationType : OperationTypeEnum) :
    s.modifyGroupMembership me peers peerId operationType =
      s.operationLeft me peers (.call peerId operationType) := by
  rw [modifyGroupMembership_eq]
  unfold operationLeft sendRequests collectOks sendViews
  dsimp only
  change ((s.modifying peerId operationType).sendRest
    (.request (s.createRequestMsg peerId operationType)) _).bind _ = _
  refine congrArg _ (funext fun requests => ?_)
  change (if (s.modifying peerId operationType).okRest peers.answer
    (s.createRequestMsg peerId operationType) _ then _ else none) = _
  split
  · unfold sendFirst
    rw [Option.map_map, Option.map_eq_bind]
    rfl
  · rfl

/-- `takeOver`, when nothing has been done. -/
theorem takeOver_eq_left (s : MembershipService Client) :
    (s.takeOver me peers).map (fun t => (t.service, t.sent)) =
      (s.reconnect peers).completeLeft me peers
        ((s.reconnect peers).pendingRest peers.pendingRequest getDummyPendingRequestMsg
          (s.reconnect peers).alivePeers.toList) := by
  rw [← waitForPendingRequestMsg_eq]
  unfold takeOver completeLeft
  dsimp only
  split
  · rw [← modifyGroupMembership_eq_left]
    cases (s.reconnect peers).modifyGroupMembership me peers _ _ <;> rfl
  · change Option.map _ (((s.reconnect peers).sendRest _ _).bind _) = _
    unfold operationLeft sendViews
    cases (s.reconnect peers).sendRest
      (.newView ((s.reconnect peers).createNewViewMsg me))
      (s.reconnect peers).alivePeers.toList <;> rfl

end MembershipService

/-! ## The steps of the main thread -/

/-- The part of `handleLeaderCrash` that only the new leader runs. -/
def MainState.takingOver : MainState → Bool
  | sendNewLeaderMsg _ _ _ => true
  | introduce _ _ _ _ _ => true
  | waitForPendingRequestMsg _ _ => true
  | completeRequest _ => true
  | _ => false

/-- The peers that a loop has still to hear from are different from each other. -/
def MainState.distinct : MainState → Prop
  | sendNewLeaderMsg _ rest _ => rest.Nodup
  | introduce _ peer _ rest _ => (peer :: rest).Nodup
  | waitForPendingRequestMsg rest _ => rest.Nodup
  | completeRequest (.waitForOkMsg _ rest) => rest.Nodup
  | _ => True

/-- How a step is met by peers that do what `peers` says. -/
inductive Meets (peers : Peers Socket) : MainState → Label → Prop
  | silent {place created} (during : place.takingOver = true) :
    Meets peers place (.silent created)
  | connected {newLeaderMsg peer rest tempAlivePeers client} :
    Meets peers (.sendNewLeaderMsg newLeaderMsg (peer :: rest) tempAlivePeers)
      (.connected peer client)
  | refused {newLeaderMsg peer rest tempAlivePeers} (missing : peers.connect peer = none) :
    Meets peers (.sendNewLeaderMsg newLeaderMsg (peer :: rest) tempAlivePeers) (.refused peer)
  | introduced {newLeaderMsg peer client rest tempAlivePeers}
      (found : peers.connect peer = some client) :
    Meets peers (.introduce newLeaderMsg peer client rest tempAlivePeers)
      (.sent client (.newLeader newLeaderMsg))
  | unreachable {newLeaderMsg peer client rest tempAlivePeers}
      (missing : peers.connect peer = none) :
    Meets peers (.introduce newLeaderMsg peer client rest tempAlivePeers)
      (.failed client (.newLeader newLeaderMsg))
  | pendingRequest {peer rest pendingRequestMsg client} :
    Meets peers (.waitForPendingRequestMsg (peer :: rest) pendingRequestMsg)
      (.received client (.request (peers.pendingRequest peer)))
  | requestSent {requestMsg rest client} :
    Meets peers (.completeRequest (.sendRequestMsg requestMsg rest))
      (.sent client (.request requestMsg))
  | answer {requestMsg peer rest client} :
    Meets peers (.completeRequest (.waitForOkMsg requestMsg (peer :: rest)))
      (.received client (.ok (peers.answer peer requestMsg)))
  | viewSent {newViewMsg rest client} :
    Meets peers (.completeRequest (.deliver newViewMsg rest))
      (.sent client (.newView newViewMsg))

/-- What a thread sends by a step, and to which peer, the `NewLeaderMsg` apart. -/
def sentAt : Option Operation → Label → List (PeerId × Msg)
  | some (.sendRequestMsg _ (peer :: _)), .sent _ m => [(peer, m)]
  | some (.deliver _ (peer :: _)), .sent _ m => [(peer, m)]
  | _, _ => []

namespace Process

variable {peers : Peers Socket} {pr next : Process} {label : Label}

/-- What is left of the takeover of a process. -/
def outcome (peers : Peers Socket) (pr : Process) : Left Socket :=
  pr.service.unsuspecting.left pr.me peers pr.main

theorem outcome_setOperation {operation : Operation} (place : pr.main = .completeRequest operation)
    (next : Operation) :
    (pr.setOperation next .main).outcome peers =
      (pr.service.unsuspecting.operationLeft pr.me peers next).map (lead pr.me) := by
  rw [setOperation_completeRequest place]
  rfl

theorem outcome_operation {operation : Operation} (place : pr.main = .completeRequest operation)
    (meets : Meets peers (.completeRequest operation) label)
    (gives : (pr.operationEffect .main operation).Gives label next) :
    pr.outcome peers = sendFirst (sentAt (some operation) label) (next.outcome peers) := by
  have here : pr.outcome peers =
      (pr.service.unsuspecting.operationLeft pr.me peers operation).map (lead pr.me) := by
    rw [outcome, place]
    rfl
  rw [here]
  cases operation with
  | call peerId operationType =>
      cases gives
      rw [outcome_setOperation
        (show ({ pr with service := pr.service.countRequest } : Process).main = _ from place)]
      exact (sendFirst_nil _).symm
  | lock requestMsg =>
      unfold operationEffect at gives
      dsimp only at gives
      split at gives
      · cases gives
      · cases gives
        rw [outcome_setOperation (show (pr.beginOperation requestMsg).main = _ from place)]
        unfold beginOperation operationLeft
        dsimp only
        rw [← unsuspecting_beginModification]
        exact (sendFirst_nil _).symm
  | sendRequestMsg requestMsg rest =>
      cases rest with
      | nil =>
          cases gives
          rw [outcome_setOperation place]
          change Option.map _ (sendFirst [] (collectOks _ _ _ requestMsg _)) = _
          rw [sendFirst_nil]
          exact (sendFirst_nil _).symm
      | cons peerId rest =>
          unfold operationEffect sendTo at gives
          dsimp only at gives
          split at gives
          · rename_i found
            cases gives
            · rw [outcome_setOperation place]
              change Option.map _ (sendRequests _ _ _ requestMsg (peerId :: rest)) = _
              rw [sendRequests_cons _ _ (s := pr.service.unsuspecting) found, map_lead_sendFirst]
              rfl
            · cases meets
          · rename_i missing
            cases gives
            change Option.map _ (sendRequests _ _ _ requestMsg (peerId :: rest)) = none
            unfold sendRequests
            rw [sendRest_cons_missing (s := pr.service.unsuspecting) missing]
            rfl
  | waitForOkMsg requestMsg rest =>
      cases rest with
      | nil =>
          cases gives
          rw [outcome_setOperation (show (pr.endOperation requestMsg).main = _ from place)]
          exact (sendFirst_nil _).symm
      | cons peerId rest =>
          unfold operationEffect at gives
          dsimp only at gives
          change Option.map _ (collectOks _ _ _ requestMsg (peerId :: rest)) = _
          split at gives
          · rename_i found
            cases gives
            · cases meets
              dsimp only
              split
              · rename_i expected
                rw [outcome_setOperation place,
                  collectOks_cons _ _ (s := pr.service.unsuspecting) found expected]
                exact (sendFirst_nil _).symm
              · rename_i other
                rw [collectOks_cons_failed _ _ (Or.inr other)]
                rfl
            · cases meets
          · rename_i missing
            cases gives
            rw [collectOks_cons_failed _ _ (s := pr.service.unsuspecting) (Or.inl missing)]
            rfl
  | printNewlyInstalledView =>
      unfold operationEffect at gives
      dsimp only at gives
      split at gives
      · cases gives
      · cases gives
        rw [outcome_setOperation place]
        exact (sendFirst_nil _).symm
  | sendNewViewMsg =>
      cases gives
      rw [outcome_setOperation place]
      exact (sendFirst_nil _).symm
  | lockView newViewId =>
      unfold operationEffect at gives
      dsimp only at gives
      split at gives
      · cases gives
      · cases gives
        rw [outcome_setOperation place]
        exact (sendFirst_nil _).symm
  | deliver newViewMsg rest =>
      cases rest with
      | nil =>
          cases gives
          rw [finishOperation_completeRequest place]
          rfl
      | cons peerId rest =>
          unfold operationEffect sendTo at gives
          dsimp only at gives
          split at gives
          · rename_i found
            cases gives
            · rw [outcome_setOperation place]
              change Option.map _ (sendViews _ newViewMsg (peerId :: rest)) = _
              rw [sendViews_cons (s := pr.service.unsuspecting) found, map_lead_sendFirst]
              rfl
            · cases meets
          · rename_i missing
            cases gives
            change Option.map _ (sendViews _ newViewMsg (peerId :: rest)) = none
            unfold sendViews
            rw [sendRest_cons_missing (s := pr.service.unsuspecting) missing]
            rfl

/-- A step does a part of what is left. -/
theorem outcome_step (meets : Meets peers pr.main label)
    (gives : (pr.effect .main).Gives label next) :
    pr.outcome peers = sendFirst (sentAt (pr.operation .main) label) (next.outcome peers) := by
  change pr.mainEffect.Gives label next at gives
  unfold mainEffect at gives
  unfold operation
  cases place : pr.main with
  | sendNewLeaderMsg newLeaderMsg rest tempAlivePeers =>
      rw [place] at meets gives
      unfold outcome
      rw [place]
      cases rest with
      | nil =>
          cases gives
          exact (sendFirst_nil _).symm
      | cons peer rest =>
          cases gives with
          | connected => exact (sendFirst_nil _).symm
          | refused =>
              cases meets with
              | refused missing =>
                  dsimp only [left]
                  rw [connectRest, missing]
                  exact (sendFirst_nil _).symm
  | introduce newLeaderMsg peer client rest tempAlivePeers =>
      rw [place] at meets gives
      unfold outcome
      rw [place]
      dsimp only [left]
      cases gives with
      | sent =>
          cases meets with
          | introduced found =>
              rw [connectRest, found]
              exact (sendFirst_nil _).symm
      | failed =>
          cases meets with
          | unreachable missing =>
              rw [connectRest, missing]
              exact (sendFirst_nil _).symm
  | waitForPendingRequestMsg rest pendingRequestMsg =>
      rw [place] at meets gives
      unfold outcome
      rw [place]
      cases rest with
      | nil =>
          dsimp only at gives
          change completeLeft _ _ _ pendingRequestMsg = _
          split at gives
          · rename_i pending
            cases gives
            unfold completeLeft
            rw [if_pos pending]
            exact (sendFirst_nil _).symm
          · rename_i nothing
            cases gives
            unfold completeLeft
            rw [if_neg nothing]
            exact (sendFirst_nil _).symm
      | cons peer rest =>
          dsimp only at gives
          split at gives
          · rename_i found
            cases gives with
            | received =>
                cases meets
                dsimp only [left]
                rw [pendingRest_cons _ (s := pr.service.unsuspecting) found]
                exact (sendFirst_nil _).symm
            | lost => cases meets
          · rename_i missing
            cases gives
            dsimp only [left]
            rw [pendingRest_cons_missing _ (s := pr.service.unsuspecting) missing]
            exact (sendFirst_nil _).symm
  | completeRequest operation =>
      rw [place] at meets gives
      exact outcome_operation place meets gives
  | _ =>
      rw [place] at meets
      cases meets with
      | silent during => cases during

/-! ## The invariant of a takeover -/

/-- A process that takes over is not yet the leader, so its failure detector has nothing to do. -/
structure TakingOver (pr : Process) : Prop where
  idle : pr.detector = none
  follows : pr.me ≠ pr.service.leaderPeerId
  distinct : pr.main.distinct

theorem TakingOver.heartBeat (taking : pr.TakingOver) (p : PeerId) :
    (pr.heartBeat p).TakingOver :=
  ⟨taking.idle, taking.follows, taking.distinct⟩

theorem TakingOver.tick (taking : pr.TakingOver) (order : List PeerId) :
    (pr.tick order).TakingOver := by
  unfold Process.tick
  dsimp only
  split
  · unfold handlePeerFailure
    rw [if_neg taking.follows]
    split
    · exact ⟨taking.idle, taking.follows, taking.distinct⟩
    · exact ⟨taking.idle, taking.follows, taking.distinct⟩
  · exact ⟨taking.idle, taking.follows, taking.distinct⟩

theorem TakingOver.setOperation {operation : Operation} (taking : pr.TakingOver)
    (place : pr.main = .completeRequest operation) {next : Operation}
    (distinct : (MainState.completeRequest next).distinct) :
    (pr.setOperation next .main).TakingOver := by
  rw [setOperation_completeRequest place]
  exact ⟨taking.idle, taking.follows, distinct⟩

theorem TakingOver.beginOperation (taking : pr.TakingOver) (requestMsg : RequestMsg) :
    (pr.beginOperation requestMsg).TakingOver := by
  refine ⟨taking.idle, ?_, taking.distinct⟩
  unfold Process.beginOperation beginModification
  dsimp only
  split
  · exact taking.follows
  · exact taking.follows

theorem TakingOver.endOperation (taking : pr.TakingOver) (requestMsg : RequestMsg) :
    (pr.endOperation requestMsg).TakingOver :=
  ⟨taking.idle, taking.follows, taking.distinct⟩

theorem TakingOver.operation (taking : pr.TakingOver) {operation : Operation}
    (place : pr.main = .completeRequest operation)
    (gives : (pr.operationEffect .main operation).Gives label next)
    (still : next.main.takingOver = true) : next.TakingOver := by
  unfold operationEffect sendTo at gives
  cases operation with
  | call peerId operationType =>
      cases gives
      have counted : { pr with service := pr.service.countRequest }.TakingOver :=
        ⟨taking.idle, taking.follows, taking.distinct⟩
      exact counted.setOperation place trivial
  | lock requestMsg =>
      dsimp only at gives
      split at gives
      · cases gives
      · cases gives
        exact (taking.beginOperation requestMsg).setOperation place trivial
  | sendRequestMsg requestMsg rest =>
      cases rest with
      | nil =>
          cases gives
          exact taking.setOperation place (OrderedSet.nodup _)
      | cons peerId rest =>
          dsimp only at gives
          split at gives
          · cases gives
            · exact taking.setOperation place trivial
            · cases still
          · cases gives
            cases still
  | waitForOkMsg requestMsg rest =>
      cases rest with
      | nil =>
          cases gives
          exact (taking.endOperation requestMsg).setOperation place trivial
      | cons peerId rest =>
          have distinct := taking.distinct
          rw [place] at distinct
          dsimp only at gives
          split at gives
          · cases gives
            · dsimp only at still ⊢
              split at still
              · split at still
                · rename_i expected
                  rw [if_pos expected]
                  exact taking.setOperation place (List.nodup_cons.mp distinct).2
                · cases still
              · cases still
            · cases still
          · cases gives
            cases still
  | printNewlyInstalledView =>
      dsimp only at gives
      split at gives
      · cases gives
      · cases gives
        exact taking.setOperation place trivial
  | sendNewViewMsg =>
      cases gives
      exact taking.setOperation place trivial
  | lockView newViewId =>
      dsimp only at gives
      split at gives
      · cases gives
      · cases gives
        exact taking.setOperation place trivial
  | deliver newViewMsg rest =>
      cases rest with
      | nil =>
          cases gives
          rw [finishOperation_completeRequest place] at still
          cases still
      | cons peerId rest =>
          dsimp only at gives
          split at gives
          · cases gives
            · exact taking.setOperation place trivial
            · cases still
          · cases gives
            cases still

theorem TakingOver.step (taking : pr.TakingOver) (during : pr.main.takingOver = true)
    (gives : (pr.effect .main).Gives label next) (still : next.main.takingOver = true) :
    next.TakingOver := by
  have distinct := taking.distinct
  change pr.mainEffect.Gives label next at gives
  unfold mainEffect at gives
  cases place : pr.main with
  | sendNewLeaderMsg newLeaderMsg rest tempAlivePeers =>
      rw [place] at gives distinct
      cases rest with
      | nil =>
          cases gives
          exact ⟨taking.idle, taking.follows, OrderedSet.nodup _⟩
      | cons peer rest =>
          cases gives with
          | connected => exact ⟨taking.idle, taking.follows, distinct⟩
          | refused => exact ⟨taking.idle, taking.follows, (List.nodup_cons.mp distinct).2⟩
  | introduce newLeaderMsg peer client rest tempAlivePeers =>
      rw [place] at gives distinct
      cases gives with
      | sent => exact ⟨taking.idle, taking.follows, (List.nodup_cons.mp distinct).2⟩
      | failed => exact ⟨taking.idle, taking.follows, (List.nodup_cons.mp distinct).2⟩
  | waitForPendingRequestMsg rest pendingRequestMsg =>
      rw [place] at gives distinct
      cases rest with
      | nil =>
          dsimp only at gives
          split at gives
          · cases gives
            exact ⟨taking.idle, taking.follows, trivial⟩
          · cases gives
            exact ⟨taking.idle, taking.follows, trivial⟩
      | cons peer rest =>
          dsimp only at gives
          split at gives
          · cases gives with
            | received =>
                dsimp only at still ⊢
                split at still
                · exact ⟨taking.idle, taking.follows, (List.nodup_cons.mp distinct).2⟩
                · cases still
            | lost => cases still
          · cases gives
            exact ⟨taking.idle, taking.follows, (List.nodup_cons.mp distinct).2⟩
  | completeRequest operation =>
      rw [place] at gives
      exact taking.operation place gives still
  | _ =>
      rw [place] at during
      cases during

/-! ## What a step tells of the peers -/

theorem learn_operation {operation : Operation} (place : pr.main = .completeRequest operation)
    (distinct : pr.main.distinct) (gives : (pr.operationEffect .main operation).Gives label next)
    (runs : next.main ≠ .stopped) (peers : Peers Socket) :
    ∃ peers', Meets peers' (.completeRequest operation) label ∧
      next.outcome peers' = next.outcome peers := by
  rw [place] at distinct
  unfold operationEffect sendTo at gives
  cases operation with
  | call peerId operationType =>
      cases gives
      exact ⟨peers, .silent rfl, rfl⟩
  | lock requestMsg =>
      dsimp only at gives
      split at gives
      · cases gives
      · cases gives
        exact ⟨peers, .silent rfl, rfl⟩
  | sendRequestMsg requestMsg rest =>
      cases rest with
      | nil =>
          cases gives
          exact ⟨peers, .silent rfl, rfl⟩
      | cons peerId rest =>
          dsimp only at gives
          split at gives
          · cases gives
            · exact ⟨peers, .requestSent, rfl⟩
            · exact absurd rfl runs
          · cases gives
            exact absurd rfl runs
  | waitForOkMsg requestMsg rest =>
      cases rest with
      | nil =>
          cases gives
          exact ⟨peers, .silent rfl, rfl⟩
      | cons peerId rest =>
          dsimp only at gives
          split at gives
          · cases gives
            · dsimp only at runs ⊢
              split at runs
              · split at runs
                · rename_i okMsg expected
                  let peers' : Peers Socket := { peers with
                    answer := Function.update peers.answer peerId fun _ => okMsg }
                  have told : peers'.answer peerId requestMsg = okMsg := by
                    dsimp only [peers']
                    rw [Function.update_self]
                  refine ⟨peers', told ▸ .answer, ?_⟩
                  rw [if_pos expected, outcome_setOperation place, outcome_setOperation place]
                  dsimp only [peers']
                  unfold operationLeft collectOks
                  dsimp only
                  rw [okRest_update (List.nodup_cons.mp distinct).1]
                · exact absurd rfl runs
              · exact absurd rfl runs
            · exact absurd rfl runs
          · cases gives
            exact absurd rfl runs
  | printNewlyInstalledView =>
      dsimp only at gives
      split at gives
      · cases gives
      · cases gives
        exact ⟨peers, .silent rfl, rfl⟩
  | sendNewViewMsg =>
      cases gives
      exact ⟨peers, .silent rfl, rfl⟩
  | lockView newViewId =>
      dsimp only at gives
      split at gives
      · cases gives
      · cases gives
        exact ⟨peers, .silent rfl, rfl⟩
  | deliver newViewMsg rest =>
      cases rest with
      | nil =>
          cases gives
          exact ⟨peers, .silent rfl, rfl⟩
      | cons peerId rest =>
          dsimp only at gives
          split at gives
          · cases gives
            · exact ⟨peers, .viewSent, rfl⟩
            · exact absurd rfl runs
          · cases gives
            exact absurd rfl runs

/-- A step that does not end the process is met by some peers, of which the rest of the takeover
asks the same as of those it is met by. -/
theorem learn (taking : pr.TakingOver) (during : pr.main.takingOver = true)
    (gives : (pr.effect .main).Gives label next) (runs : next.main ≠ .stopped)
    (peers : Peers Socket) :
    ∃ peers', Meets peers' pr.main label ∧ next.outcome peers' = next.outcome peers := by
  have distinct := taking.distinct
  change pr.mainEffect.Gives label next at gives
  unfold mainEffect at gives
  cases place : pr.main with
  | sendNewLeaderMsg newLeaderMsg rest tempAlivePeers =>
      rw [place] at gives distinct
      cases rest with
      | nil =>
          cases gives
          exact ⟨peers, .silent rfl, rfl⟩
      | cons peer rest =>
          cases gives with
          | connected => exact ⟨peers, .connected, rfl⟩
          | refused =>
              refine ⟨{ peers with connect := Function.update peers.connect peer none },
                .refused (Function.update_self _ _ _), ?_⟩
              unfold outcome left
              dsimp only
              rw [connectRest_update (List.nodup_cons.mp distinct).1]
              rfl
  | introduce newLeaderMsg peer client rest tempAlivePeers =>
      rw [place] at gives distinct
      cases gives with
      | sent =>
          refine ⟨{ peers with connect := Function.update peers.connect peer (some client) },
            .introduced (Function.update_self _ _ _), ?_⟩
          unfold outcome left
          dsimp only
          rw [connectRest_update (List.nodup_cons.mp distinct).1]
          rfl
      | failed =>
          refine ⟨{ peers with connect := Function.update peers.connect peer none },
            .unreachable (Function.update_self _ _ _), ?_⟩
          unfold outcome left
          dsimp only
          rw [connectRest_update (List.nodup_cons.mp distinct).1]
          rfl
  | waitForPendingRequestMsg rest pendingRequestMsg =>
      rw [place] at gives distinct
      cases rest with
      | nil =>
          dsimp only at gives
          split at gives
          · cases gives
            exact ⟨peers, .silent rfl, rfl⟩
          · cases gives
            exact ⟨peers, .silent rfl, rfl⟩
      | cons peer rest =>
          dsimp only at gives
          split at gives
          · cases gives with
            | received =>
                dsimp only at runs ⊢
                split at runs
                · rename_i requestMsg
                  let peers' : Peers Socket := { peers with
                    pendingRequest := Function.update peers.pendingRequest peer requestMsg }
                  have told : peers'.pendingRequest peer = requestMsg :=
                    Function.update_self _ _ _
                  refine ⟨peers', told ▸ .pendingRequest, ?_⟩
                  unfold outcome left
                  dsimp only [peers']
                  rw [pendingRest_update (List.nodup_cons.mp distinct).1]
                  rfl
                · exact absurd rfl runs
            | lost => exact absurd rfl runs
          · cases gives
            exact ⟨peers, .silent rfl, rfl⟩
  | completeRequest operation =>
      rw [place] at gives
      exact learn_operation place taking.distinct gives runs peers
  | _ =>
      rw [place] at during
      cases during

/-! ## Runs -/

end Process

/-- A step of a process: of one of its threads, or of its failure detector. -/
inductive TakeoverStep (pr : Process) : List (PeerId × Msg) → Process → Prop
  | thread {t label next} (gives : (pr.effect t).Gives label next) :
    TakeoverStep pr (sentAt (pr.operation t) label) next
  | heartBeat (p : PeerId) : TakeoverStep pr [] (pr.heartBeat p)
  | tick (order : List PeerId) : TakeoverStep pr [] (pr.tick order)

/-- The steps of a process up to the end of its takeover, and what it sends by them. -/
inductive Proceeds : Process → List (PeerId × Msg) → Process → Prop
  | stay (pr : Process) : Proceeds pr [] pr
  | step {pr next pr' : Process} {sent sent' : List (PeerId × Msg)}
      (during : pr.main.takingOver = true) (taken : TakeoverStep pr sent next)
      (rest : Proceeds next sent' pr') : Proceeds pr (sent ++ sent') pr'

namespace Process

variable {peers : Peers Socket} {pr next pr' : Process} {sent : List (PeerId × Msg)}

theorem outcome_tick (peers : Peers Socket) (pr : Process) (order : List PeerId) :
    (pr.tick order).outcome peers = pr.outcome peers := by
  obtain ⟨leaderCrashed, detector, heartBeats, suspect, same⟩ := pr.tick_eq order
  rw [same]
  rfl

/-- A takeover that gets to `accept` has the outcome that some peers have led to. -/
theorem outcome_of_proceeds (run : Proceeds pr sent pr')
    (taking : pr.main.takingOver = true → pr.TakingOver) (ended : pr'.main = .accept) :
    ∃ peers, pr.outcome peers = some (pr'.service.unsuspecting, sent) := by
  induction run with
  | stay pr =>
      refine ⟨⟨fun _ => none, fun _ => getDummyPendingRequestMsg,
        fun _ _ => pr.service.createOkMsg⟩, ?_⟩
      rw [outcome, ended]
      rfl
  | @step pr next pr' _ sent' during taken rest ih =>
      have taking := taking during
      cases taken with
      | @thread t label _ gives =>
          cases t with
          | main =>
              obtain ⟨peers, eq⟩ := ih (taking.step during gives) ended
              have runs : next.main ≠ .stopped := by
                intro stopped
                rw [outcome, stopped] at eq
                cases eq
              obtain ⟨peers', meets, same⟩ := learn taking during gives runs peers
              refine ⟨peers', ?_⟩
              rw [outcome_step meets gives, same, eq]
              rfl
          | detector =>
              unfold effect at gives
              dsimp only at gives
              rw [taking.idle] at gives
              cases gives
      | heartBeat p =>
          obtain ⟨peers, eq⟩ := ih (fun _ => taking.heartBeat p) ended
          exact ⟨peers, eq⟩
      | tick order =>
          obtain ⟨peers, eq⟩ := ih (fun _ => taking.tick order) ended
          rw [outcome_tick] at eq
          exact ⟨peers, eq⟩

/-! ## Getting to the end -/

end Process

/-- What comes later has a smaller phase. -/
def Operation.phase : Operation → ℕ
  | call _ _ => 8
  | lock _ => 7
  | sendRequestMsg _ _ => 6
  | waitForOkMsg _ _ => 5
  | printNewlyInstalledView => 4
  | sendNewViewMsg => 3
  | lockView _ => 2
  | deliver _ _ => 1

def Operation.remaining : Operation → ℕ
  | sendRequestMsg _ rest => rest.length
  | waitForOkMsg _ rest => rest.length
  | deliver _ rest => rest.length
  | _ => 0

/-- The phase of the takeover, and the steps that its loop has still to do. -/
def MainState.rank : MainState → ℕ × ℕ
  | sendNewLeaderMsg _ rest _ => (10, 2 * rest.length)
  | introduce _ _ _ rest _ => (10, 2 * rest.length + 1)
  | waitForPendingRequestMsg rest _ => (9, rest.length)
  | completeRequest operation => (operation.phase, operation.remaining)
  | _ => (0, 0)

/-- The place comes later in the takeover. -/
def MainState.After (next place : MainState) : Prop :=
  Prod.Lex (· < ·) (· < ·) next.rank place.rank

/-- A connection just made is the one that `peers` tells of. -/
def MainState.Chosen (peers : Peers Socket) : MainState → Prop
  | introduce _ peer client _ _ => peers.connect peer = some client
  | _ => True

namespace Process

variable {peers : Peers Socket} {pr next pr' : Process} {sent : List (PeerId × Msg)}

theorem gives_received {client : Socket} {received : Msg → Process} {lost : Process} {m : Msg}
    (eq : received m = next) :
    (Effect.receive client received lost).Gives (.received client m) next := by
  subst eq
  exact .received

/-- The step that a process goes on with when all its peers do what `peers` says. -/
structure GoesOn (peers : Peers Socket) (pr : Process) (effect : Effect) (next : Process) :
    Prop where
  step : ∃ label, Meets peers pr.main label ∧ effect.Gives label next
  idle : next.detector = none
  chosen : next.main.Chosen peers
  later : next.main.After pr.main

theorem goesOn_setOperation (data : Process) {operation next : Operation} {effect : Effect}
    {label : Label} (idle : data.detector = none) (place : pr.main = .completeRequest operation)
    (here : data.main = pr.main) (meets : Meets peers (.completeRequest operation) label)
    (gives : effect.Gives label (data.setOperation next .main))
    (later : next.phase < operation.phase ∨
      next.phase = operation.phase ∧ next.remaining < operation.remaining) :
    GoesOn peers pr effect (data.setOperation next .main) := by
  refine ⟨⟨label, place ▸ meets, gives⟩, ?_, ?_, ?_⟩
  · rw [setOperation_completeRequest (here.trans place)]
    exact idle
  · rw [setOperation_completeRequest (here.trans place)]
    trivial
  · rw [setOperation_completeRequest (here.trans place), place]
    exact Prod.lex_def.mpr later

theorem goesOn_terminate {effect : Effect} {label : Label} (during : pr.main.takingOver = true)
    (meets : Meets peers pr.main label) (gives : effect.Gives label pr.terminate) :
    GoesOn peers pr effect pr.terminate := by
  refine ⟨⟨label, meets, gives⟩, rfl, trivial, Prod.lex_def.mpr (Or.inl ?_)⟩
  cases place : pr.main with
  | sendNewLeaderMsg _ _ _ => exact Nat.succ_pos _
  | introduce _ _ _ _ _ => exact Nat.succ_pos _
  | waitForPendingRequestMsg _ _ => exact Nat.succ_pos _
  | completeRequest operation => cases operation <;> exact Nat.succ_pos _
  | _ =>
      rw [place] at during
      cases during

theorem goesOn_operation (peers : Peers Socket) {operation : Operation}
    (idle : pr.detector = none) (place : pr.main = .completeRequest operation) :
    ∃ next, GoesOn peers pr (pr.operationEffect .main operation) next := by
  have free : ¬pr.lockTaken .main = true := by
    change ¬pr.detector.any Operation.locked = true
    rw [idle]
    exact Bool.false_ne_true
  have during : pr.main.takingOver = true := by
    rw [place]
    rfl
  -- The next place is the next phase, or the same one with less remaining.
  have sooner (n : ℕ) : n < n + 1 := Nat.lt_succ_self n
  unfold operationEffect sendTo
  cases operation with
  | call peerId operationType =>
      exact ⟨_, goesOn_setOperation { pr with service := pr.service.countRequest } idle place rfl
        (.silent rfl) .silent (Or.inl (sooner 7))⟩
  | lock requestMsg =>
      dsimp only
      rw [if_neg free]
      exact ⟨_, goesOn_setOperation (pr.beginOperation requestMsg) idle place rfl
        (.silent rfl) .silent (Or.inl (sooner 6))⟩
  | sendRequestMsg requestMsg rest =>
      cases rest with
      | nil =>
          exact ⟨_, goesOn_setOperation pr idle place rfl (.silent rfl) .silent
            (Or.inl (sooner 5))⟩
      | cons peerId rest =>
          dsimp only
          cases pr.service.tcpClientMap peerId with
          | some client =>
              exact ⟨_, goesOn_setOperation pr idle place rfl .requestSent .sent
                (Or.inr ⟨rfl, sooner _⟩)⟩
          | none => exact ⟨_, goesOn_terminate during (.silent during) .silent⟩
  | waitForOkMsg requestMsg rest =>
      cases rest with
      | nil =>
          exact ⟨_, goesOn_setOperation (pr.endOperation requestMsg) idle place rfl
            (.silent rfl) .silent (Or.inl (sooner 4))⟩
      | cons peerId rest =>
          dsimp only
          cases pr.service.tcpClientMap peerId with
          | some client =>
              by_cases expected :
                (peers.answer peerId requestMsg).requestId = requestMsg.requestId
              · exact ⟨_, goesOn_setOperation pr idle place rfl .answer
                  (gives_received (if_pos expected)) (Or.inr ⟨rfl, sooner _⟩)⟩
              · have meets : Meets peers pr.main
                    (.received client (.ok (peers.answer peerId requestMsg))) :=
                  place ▸ .answer
                exact ⟨_, goesOn_terminate during meets (gives_received (if_neg expected))⟩
          | none => exact ⟨_, goesOn_terminate during (.silent during) .silent⟩
  | printNewlyInstalledView =>
      dsimp only
      rw [if_neg free]
      exact ⟨_, goesOn_setOperation pr idle place rfl (.silent rfl) .silent
        (Or.inl (sooner 3))⟩
  | sendNewViewMsg =>
      exact ⟨_, goesOn_setOperation pr idle place rfl (.silent rfl) .silent
        (Or.inl (sooner 2))⟩
  | lockView newViewId =>
      dsimp only
      rw [if_neg free]
      exact ⟨_, goesOn_setOperation pr idle place rfl (.silent rfl) .silent
        (Or.inl (sooner 1))⟩
  | deliver newViewMsg rest =>
      cases rest with
      | nil =>
          refine ⟨_, ⟨_, place ▸ .silent rfl, .silent⟩, ?_, ?_, ?_⟩
          · rw [finishOperation_completeRequest place]
            exact idle
          · rw [finishOperation_completeRequest place]
            trivial
          · rw [finishOperation_completeRequest place, place]
            exact .left _ _ (sooner 0)
      | cons peerId rest =>
          dsimp only
          cases pr.service.tcpClientMap peerId with
          | some client =>
              exact ⟨_, goesOn_setOperation pr idle place rfl .viewSent .sent
                (Or.inr ⟨rfl, sooner _⟩)⟩
          | none => exact ⟨_, goesOn_terminate during (.silent during) .silent⟩

/-- As long as the takeover goes on, the main thread can take a step. -/
theorem goesOn (peers : Peers Socket) (idle : pr.detector = none) (chosen : pr.main.Chosen peers)
    (during : pr.main.takingOver = true) : ∃ next, GoesOn peers pr (pr.effect .main) next := by
  change ∃ next, GoesOn peers pr pr.mainEffect next
  unfold mainEffect
  cases place : pr.main with
  | sendNewLeaderMsg newLeaderMsg rest tempAlivePeers =>
      cases rest with
      | nil =>
          refine ⟨_, ⟨_, place ▸ .silent rfl, .silent⟩, idle, trivial, ?_⟩
          rw [place]
          exact .left _ _ (by decide)
      | cons peer rest =>
          cases found : peers.connect peer with
          | none =>
              refine ⟨_, ⟨_, place ▸ .refused found, .refused⟩, idle, trivial, ?_⟩
              rw [place]
              exact .right _ (by rw [List.length_cons]; omega)
          | some client =>
              refine ⟨_, ⟨.connected peer client, place ▸ .connected, .connected⟩, idle, found, ?_⟩
              rw [place]
              exact .right _ (by rw [List.length_cons]; omega)
  | introduce newLeaderMsg peer client rest tempAlivePeers =>
      rw [place] at chosen
      refine ⟨_, ⟨_, place ▸ .introduced chosen, .sent⟩, idle, trivial, ?_⟩
      rw [place]
      exact .right _ (Nat.lt_succ_self _)
  | waitForPendingRequestMsg rest pendingRequestMsg =>
      cases rest with
      | nil =>
          dsimp only
          split
          · refine ⟨_, ⟨_, place ▸ .silent rfl, .silent⟩, idle, trivial, ?_⟩
            rw [place]
            exact .left _ _ (Nat.lt_succ_self 8)
          · refine ⟨_, ⟨_, place ▸ .silent rfl, .silent⟩, idle, trivial, ?_⟩
            rw [place]
            exact .left _ _ (by decide)
      | cons peer rest =>
          dsimp only
          cases pr.service.tcpClientMap peer with
          | some client =>
              refine ⟨_, ⟨.received client (.request (peers.pendingRequest peer)),
                place ▸ .pendingRequest, gives_received rfl⟩, idle, trivial, ?_⟩
              rw [place]
              exact .right _ (Nat.lt_succ_self _)
          | none =>
              refine ⟨_, ⟨_, place ▸ .silent rfl, .silent⟩, idle, trivial, ?_⟩
              rw [place]
              exact .right _ (Nat.lt_succ_self _)
  | completeRequest operation => exact goesOn_operation peers idle place
  | _ =>
      rw [place] at during
      cases during

theorem proceeds_of_outcome (peers : Peers Socket) (pr : Process) (idle : pr.detector = none)
    (chosen : pr.main.Chosen peers) {left : MembershipService Socket × List (PeerId × Msg)}
    (outcome : pr.outcome peers = some left) :
    ∃ pr', Proceeds pr left.2 pr' ∧ pr'.main = .accept ∧
      pr'.service.unsuspecting = left.1 := by
  cases during : pr.main.takingOver with
  | false =>
      unfold Process.outcome at outcome
      cases place : pr.main with
      | accept =>
          rw [place] at outcome
          cases outcome
          exact ⟨pr, .stay pr, place, rfl⟩
      | _ =>
          rw [place] at outcome during
          first | cases outcome | cases during
  | true =>
      obtain ⟨next, ⟨label, meets, gives⟩, idle', chosen', later⟩ :=
        goesOn peers idle chosen during
      rw [outcome_step meets gives] at outcome
      obtain ⟨left', outcome', rfl⟩ := Option.map_eq_some_iff.mp outcome
      obtain ⟨pr', run, ended, service⟩ := proceeds_of_outcome peers next idle' chosen' outcome'
      exact ⟨pr', .step during (.thread gives) run, ended, service⟩
termination_by pr.main.rank
decreasing_by exact later

/-! ## The refinement -/

/-- What `handleLeaderCrash` has still to do after its first step is all of `takeOver`. -/
theorem outcome_handleLeaderCrash (peers : Peers Socket)
    (elected : nextLeader pr.me pr.heartBeats.getAlivePeers = pr.me) :
    pr.handleLeaderCrash.outcome peers =
      (pr.service.unsuspecting.takeOver pr.me peers).map fun t => (t.service, t.sent) := by
  rw [takeOver_eq_left]
  unfold handleLeaderCrash outcome reconnect
  dsimp only
  rw [if_pos elected, sendNewLeaderMsg_eq]
  rfl

theorem takingOver_handleLeaderCrash (idle : pr.detector = none)
    (follows : pr.me ≠ pr.service.leaderPeerId)
    (elected : nextLeader pr.me pr.heartBeats.getAlivePeers = pr.me) :
    pr.handleLeaderCrash.TakingOver := by
  unfold handleLeaderCrash
  dsimp only
  rw [if_pos elected]
  exact ⟨idle, follows, OrderedSet.nodup _⟩

/-- **Refinement.**  Whatever the network and the other processes do, and wherever the failure
detector interferes, a takeover that gets to `accept` leaves the state and has sent the messages
that `takeOver` says for some peers; and each takeover that it says can be taken in steps. -/
theorem takeOver_iff_proceeds (idle : pr.detector = none)
    (follows : pr.me ≠ pr.service.leaderPeerId)
    (elected : nextLeader pr.me pr.heartBeats.getAlivePeers = pr.me)
    (service : MembershipService Socket) (sent : List (PeerId × Msg)) :
    (∃ pr', Proceeds pr.handleLeaderCrash sent pr' ∧ pr'.main = .accept ∧
        pr'.service.unsuspecting = service) ↔
      ∃ peers t, pr.service.unsuspecting.takeOver pr.me peers = some t ∧
        t.service = service ∧ t.sent = sent := by
  constructor
  · rintro ⟨pr', run, ended, rfl⟩
    obtain ⟨peers, outcome⟩ := outcome_of_proceeds run
      (fun _ => takingOver_handleLeaderCrash idle follows elected) ended
    rw [outcome_handleLeaderCrash peers elected] at outcome
    obtain ⟨t, taken, same⟩ := Option.map_eq_some_iff.mp outcome
    exact ⟨peers, t, taken, congrArg Prod.fst same, congrArg Prod.snd same⟩
  · rintro ⟨peers, t, taken, rfl, rfl⟩
    have outcome := outcome_handleLeaderCrash peers elected
    rw [taken] at outcome
    have idle' : pr.handleLeaderCrash.detector = none :=
      (takingOver_handleLeaderCrash idle follows elected).idle
    have chosen : pr.handleLeaderCrash.main.Chosen peers := by
      unfold handleLeaderCrash
      dsimp only
      rw [if_pos elected]
      trivial
    exact proceeds_of_outcome peers _ idle' chosen outcome

end Process

/-! ## Host 2 has lost host 1, and host 3 holds no request -/

def orphanedRun : List Event :=
  threeHostsRun ++ [.crash 0] ++ mainSteps 1 1 ++ mainSteps 2 1 ++ detectRun 1 3 ++
  detectRun 2 2 ++ mainSteps 2 2 ++ mainSteps 1 1

theorem orphanedRun_through :
    (replay (World.step [1, 2, 3, 4, 5]) {} orphanedRun).isSome = true := by
  decide +kernel

/-- The world in which host 2 is about to choose a new leader. -/
def orphaned : World :=
  (replay (World.step [1, 2, 3, 4, 5]) {} orphanedRun).get orphanedRun_through

def answeringPeers : Peers Socket where
  connect p := if p = 3 then some ⟨7, true⟩ else none
  pendingRequest _ := getDummyPendingRequestMsg
  answer _ requestMsg :=
    { msgType := MsgTypeEnum.OK.code, requestId := requestMsg.requestId, currentViewId := 0 }

theorem orphaned_takeOver : ((orphaned.processes 1).service.unsuspecting.takeOver
    (orphaned.processes 1).me answeringPeers).isSome = true := by
  decide +kernel

theorem takeOver_iff_proceeds_orphaned :
    let t := ((orphaned.processes 1).service.unsuspecting.takeOver (orphaned.processes 1).me
      answeringPeers).get orphaned_takeOver
    ∃ pr', Proceeds (orphaned.processes 1).handleLeaderCrash t.sent pr' ∧ pr'.main = .accept ∧
      pr'.service.unsuspecting = t.service :=
  (Process.takeOver_iff_proceeds (by decide +kernel) (by decide +kernel) (by decide +kernel)
    _ _).mpr ⟨answeringPeers, _, (Option.some_get orphaned_takeOver).symm, rfl, rfl⟩

/-! ## Runs of the whole system -/

theorem Proceeds.snoc {pr pr' next : Process} {sent sent' : List (PeerId × Msg)}
    (run : Proceeds pr sent pr') (during : pr'.main.takingOver = true)
    (taken : TakeoverStep pr' sent' next) : Proceeds pr (sent ++ sent') next := by
  induction run with
  | stay pr =>
      have one := Proceeds.step during taken (.stay next)
      rwa [List.append_nil] at one
  | step during' first _ ih =>
      rw [List.append_assoc]
      exact .step during' first (ih during taken)

/-- What the network makes of an effect is one of the ways in which it can be met. -/
theorem World.perform_gives {s s' : World} {i : ProcId} {effect : Effect}
    (performed : s.perform i effect = some s') :
    ∃ label next, effect.Gives label next ∧
      s'.processes = Function.update s.processes i next := by
  unfold perform at performed
  split at performed
  · cases performed
    exact ⟨_, _, .silent, rfl⟩
  · cases performed
    exact ⟨_, _, .sent, rfl⟩
  · split at performed
    · cases performed
      exact ⟨_, _, .received, rfl⟩
    · split at performed
      · cases performed
        exact ⟨_, _, .lost, rfl⟩
      · cases performed
  · split at performed
    · cases performed
      exact ⟨_, _, .connected, rfl⟩
    · cases performed
      exact ⟨_, _, .refused, rfl⟩
  · split at performed
    · cases performed
      exact ⟨_, _, .accepted, rfl⟩
    · cases performed
  · cases performed

theorem World.performFailure_gives {s s' : World} {i : ProcId} {effect : Effect}
    (performed : s.performFailure i effect = some s') :
    ∃ label next, effect.Gives label next ∧
      s'.processes = Function.update s.processes i next := by
  unfold performFailure at performed
  split at performed
  · split at performed
    · cases performed
      exact ⟨_, _, .failed, rfl⟩
    · cases performed
  · cases performed

/-- A step of the system that changes a process is one of the process, or ends it. -/
theorem World.takeoverStep {hosts : List PeerId} {s s' : World} {e : Event} {i : ProcId}
    (known : i < s.started) (taken : s.step hosts e = some s') :
    s'.processes i = s.processes i ∨ (s'.processes i).main = .stopped ∨
      ∃ sent, TakeoverStep (s.processes i) sent (s'.processes i) := by
  have one {j : ProcId} {next : Process}
      (processes : s'.processes = Function.update s.processes j next)
      (here : j = i → next.main = .stopped ∨ ∃ sent, TakeoverStep (s.processes j) sent next) :
      s'.processes i = s.processes i ∨ (s'.processes i).main = .stopped ∨
        ∃ sent, TakeoverStep (s.processes i) sent (s'.processes i) := by
    rw [processes, Function.update_apply]
    split
    · rename_i same
      subst same
      exact Or.inr (here rfl)
    · exact Or.inl rfl
  cases e with
  | start p =>
      rw [World.step] at taken
      split at taken
      · cases taken
        exact one rfl fun same => absurd same known.ne'
      · cases taken
  | crash j =>
      rw [World.step] at taken
      split at taken
      · cases taken
        exact one rfl fun _ => Or.inl rfl
      · cases taken
  | heartBeat j p =>
      rw [World.step] at taken
      split at taken
      · cases taken
        exact one rfl fun _ => Or.inr ⟨_, .heartBeat p⟩
      · cases taken
  | tick j order =>
      rw [World.step] at taken
      split at taken
      · cases taken
        exact one rfl fun _ => Or.inr ⟨_, .tick order⟩
      · cases taken
  | run j t =>
      rw [World.step] at taken
      split at taken
      · obtain ⟨label, next, gives, processes⟩ := perform_gives taken
        exact one processes fun _ => Or.inr ⟨_, .thread gives⟩
      · cases taken
  | fail j t =>
      rw [World.step] at taken
      split at taken
      · obtain ⟨label, next, gives, processes⟩ := performFailure_gives taken
        exact one processes fun _ => Or.inr ⟨_, .thread gives⟩
      · cases taken

/-- In a run of the system a process proceeds with its takeover, or it stops. -/
theorem World.proceeds {hosts : List PeerId} {s s' : World} {i : ProcId}
    (reach : Reach (World.step hosts) Always {} s)
    (run : Reach (World.step hosts) (fun s _ => (s.processes i).main.takingOver = true) s s') :
    (s'.processes i).main = .stopped ∨
      ∃ sent, Proceeds (s.processes i) sent (s'.processes i) := by
  induction run with
  | start => exact Or.inr ⟨[], .stay _⟩
  | @next middle s' e before during taken ih =>
      have running : (middle.processes i).running = true := by
        rw [Process.running, decide_eq_true_iff]
        intro stopped
        rw [stopped] at during
        cases during
      have known := (wired_of_reachable (reach.trans before.always)).started i running
      rcases ih with stopped | ⟨sent, run⟩
      · rw [stopped] at during
        cases during
      · rcases takeoverStep known taken with same | stopped | ⟨sent', step⟩
        · rw [same]
          exact Or.inr ⟨sent, run⟩
        · exact Or.inl stopped
        · exact Or.inr ⟨_, run.snoc during step⟩

/-! ## Nobody follows itself -/

theorem MainState.follows_of_hasLeader {place : MainState} (has : place.hasLeader = true) :
    place.follows = true := by
  revert has
  cases place <;> simp [MainState.hasLeader, MainState.follows]

/-- Where a process that has a leader has it from. -/
theorem ThreadStep.hasLeader {pr next : Process} {t : Thread} {label : Label}
    (step : ThreadStep pr t label next) (has : next.main.hasLeader = true) :
    pr.main.hasLeader = true ∧ next.service.leaderPeerId = pr.service.leaderPeerId ∨
      next.service.leaderPeerId ≠ pr.me ∨
        ∃ close k, label = .accepted close k next.service.leaderPeerId := by
  have unchanged {data : Process} {operation : Operation}
      (same : next = data.setOperation operation t) (main : data.main = pr.main)
      (leader : data.service.leaderPeerId = pr.service.leaderPeerId) :
      pr.main.hasLeader = true ∧ next.service.leaderPeerId = pr.service.leaderPeerId := by
    subst same
    have place := Process.follows_setOperation data (MainState.follows_of_hasLeader has)
    rw [place, main] at has
    rw [Process.service_setOperation]
    exact ⟨has, leader⟩
  have stays {place : MainState} (here : pr.main = place) (before : place.hasLeader = true)
      (leader : next.service.leaderPeerId = pr.service.leaderPeerId) :
      pr.main.hasLeader = true ∧ next.service.leaderPeerId = pr.service.leaderPeerId := by
    rw [here]
    exact ⟨before, leader⟩
  cases step
  case call => exact Or.inl (unchanged rfl rfl rfl)
  case lock requestMsg place free =>
    refine Or.inl (unchanged rfl rfl ?_)
    unfold Process.beginOperation beginModification
    dsimp only
    split <;> rfl
  case sendRequestMsg => exact Or.inl (unchanged rfl rfl rfl)
  case requestsSent => exact Or.inl (unchanged rfl rfl rfl)
  case waitForOkMsg => exact Or.inl (unchanged rfl rfl rfl)
  case newView => exact Or.inl (unchanged rfl rfl rfl)
  case printNewlyInstalledView => exact Or.inl (unchanged rfl rfl rfl)
  case sendNewViewMsg => exact Or.inl (unchanged rfl rfl rfl)
  case lockView => exact Or.inl (unchanged rfl rfl rfl)
  case deliver => exact Or.inl (unchanged rfl rfl rfl)
  case delivered newViewMsg place =>
    rcases Process.operation_cases place with ⟨rfl, here⟩ | ⟨rfl, here⟩ | ⟨rfl, here⟩
    · rw [Process.finishOperation_addPeer here] at has
      cases has
    · rw [Process.finishOperation_completeRequest here] at has
      cases has
    · exact Or.inl ⟨has, rfl⟩
  case leaderFound place other => exact Or.inr (Or.inl other)
  case waitForNewLeaderMsg => exact Or.inr (Or.inr ⟨_, _, rfl⟩)
  case followerReceives client m place found free =>
    cases m with
    | request m => exact Or.inl (stays place rfl rfl)
    | newView m => exact Or.inl (stays place rfl rfl)
    | ok m => cases has
    | newLeader m => cases has
  case leaderLost place found => exact Or.inl (stays place rfl rfl)
  case sendOkMsg place found => exact Or.inl (stays place rfl rfl)
  case okMsgFailed place found => exact Or.inl (stays place rfl rfl)
  case greet place => exact Or.inl (stays place rfl rfl)
  case sendPendingRequestMsg place found => exact Or.inl (stays place rfl rfl)
  case waitForLeaderCrash place crashed => exact Or.inl (stays place rfl rfl)
  case handleLeaderCrash place idle =>
    unfold Process.handleLeaderCrash at has
    dsimp only at has
    split at has
    · cases has
    · cases has
  all_goals cases has

/-- The leader of a process is another host. -/
theorem leader_ne_of_reachable {hosts : List PeerId} {s : World}
    (reach : Reach (World.step hosts) Always {} s) :
    ∀ i, (s.processes i).main.hasLeader = true →
      (s.processes i).service.leaderPeerId ≠ (s.processes i).me := by
  refine reach.invariant_with (Q := Wired)
    (P := fun s => ∀ i, (s.processes i).main.hasLeader = true →
      (s.processes i).service.leaderPeerId ≠ (s.processes i).me)
    (fun _ before => wired_of_reachable before) (fun _ has => by cases has) ?_
  intro s e s' wired before _ taken
  refine (worldStep_of_step taken).forall_processes
    (P := fun pr => pr.main.hasLeader = true → pr.service.leaderPeerId ≠ pr.me) before ?_
  intro i next step has
  cases step with
  | start => cases has
  | crash running => cases has
  | heartBeat running idle other => exact before i has
  | @tick _ order running idle =>
      obtain ⟨leaderCrashed, detector, heartBeats, suspect, same⟩ :=
        (s.processes i).tick_eq order
      rw [same] at has ⊢
      exact before i has
  | thread event running step connected accepted =>
      rw [step.me_eq]
      rcases step.hasLeader has with ⟨had, leader⟩ | other | ⟨close, k, same⟩
      · rw [leader]
        exact before i had
      · exact other
      · obtain ⟨waits, peer⟩ := accepted close k _ same
        obtain ⟨less, own⟩ := wired.waiting i k waits
        have apart := wired.apart k less
        rw [own, ← peer] at apart
        exact apart

/-- The first step of a takeover. -/
theorem World.handleLeaderCrash_of_step {hosts : List PeerId} {s s' : World} {i : ProcId}
    (waits : (s.processes i).main = .handleLeaderCrash)
    (taken : s.step hosts (.run i .main) = some s') :
    (s.processes i).detector = none ∧ s'.processes i = (s.processes i).handleLeaderCrash := by
  rw [World.step] at taken
  split at taken
  · unfold Process.effect Process.mainEffect at taken
    dsimp only at taken
    rw [waits] at taken
    dsimp only at taken
    split at taken
    · rename_i idle
      cases taken
      exact ⟨idle, Function.update_self _ _ _⟩
    · cases taken
  · cases taken

/-- **Refinement, in the system.**  In every run, a process that takes over from its leader and
gets to `accept` has the state that `takeOver` gives it for some behaviour of its peers. -/
theorem takeOver_of_run {hosts : List PeerId} {before s s' : World} {i : ProcId}
    (reach : Reach (World.step hosts) Always {} before)
    (waits : (before.processes i).main = .handleLeaderCrash)
    (taken : before.step hosts (.run i .main) = some s)
    (elected : (s.processes i).main.takingOver = true)
    (run : Reach (World.step hosts) (fun s _ => (s.processes i).main.takingOver = true) s s')
    (ended : (s'.processes i).main = .accept) :
    ∃ peers t, (before.processes i).service.unsuspecting.takeOver (before.processes i).me peers =
        some t ∧ t.service = (s'.processes i).service.unsuspecting := by
  obtain ⟨idle, here⟩ := handleLeaderCrash_of_step waits taken
  have follows := leader_ne_of_reachable reach i (by rw [waits]; rfl)
  have itself : nextLeader (before.processes i).me
      (before.processes i).heartBeats.getAlivePeers = (before.processes i).me := by
    by_contra other
    rw [here] at elected
    unfold Process.handleLeaderCrash at elected
    dsimp only at elected
    rw [if_neg other] at elected
    cases elected
  rcases proceeds (.next reach trivial taken) run with stopped | ⟨sent, steps⟩
  · rw [ended] at stopped
    cases stopped
  · rw [here] at steps
    obtain ⟨peers, outcome⟩ := Process.outcome_of_proceeds steps
      (fun _ => Process.takingOver_handleLeaderCrash idle (Ne.symm follows) itself) ended
    rw [Process.outcome_handleLeaderCrash peers itself] at outcome
    obtain ⟨t, eq, same⟩ := Option.map_eq_some_iff.mp outcome
    exact ⟨peers, t, eq, congrArg Prod.fst same⟩

/-! ## Host 2 takes over, and its failure detector reports the lost leader once more -/

def takeoverRun : List Event :=
  mainSteps 1 1 ++
  [.heartBeat 1 1, .tick 1 [1, 3], .tick 1 [1, 3], .heartBeat 1 3, .tick 1 [1, 3]] ++
  mainSteps 1 1 ++ mainSteps 2 3 ++ mainSteps 1 7

theorem orphaned_step : (orphaned.step [1, 2, 3, 4, 5] (.run 1 .main)).isSome = true := by
  decide +kernel

theorem takeoverRun_through :
    (replay (World.step [1, 2, 3, 4, 5])
      ((orphaned.step [1, 2, 3, 4, 5] (.run 1 .main)).get orphaned_step) takeoverRun).isSome =
        true := by
  decide +kernel

theorem takeOver_of_run_orphaned :
    let s' := (replay (World.step [1, 2, 3, 4, 5])
      ((orphaned.step [1, 2, 3, 4, 5] (.run 1 .main)).get orphaned_step) takeoverRun).get
        takeoverRun_through
    ∃ peers t, (orphaned.processes 1).service.unsuspecting.takeOver (orphaned.processes 1).me
      peers = some t ∧ t.service = (s'.processes 1).service.unsuspecting :=
  takeOver_of_run (.of_isSome (allowedAlong_always _ _) orphanedRun_through)
    (by decide +kernel) (Option.some_get orphaned_step).symm (by decide +kernel)
    (.of_isSome (by decide +kernel) takeoverRun_through) (by decide +kernel)

end GroupComm.Lab2
