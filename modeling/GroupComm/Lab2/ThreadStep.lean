import GroupComm.Lab2.Process

/-!
# What a step of a thread can do

`ThreadStep pr t label next` lists the steps that `Process.effect` describes, one constructor
for each place in the code, with the guard under which it is taken.  `Effect.Gives` says that
an effect, met by the network in the way of `label`, leaves the process `next`; what it gives
is always a step of the list (`threadStep_of_gives`), and all invariants are proved from that.
-/

namespace GroupComm.Lab2

open MembershipService

/-- How the network has met an effect. -/
inductive Label where
  | silent (created : List Creation)
  | sent (client : Socket) (m : Msg)
  | failed (client : Socket) (m : Msg)
  | received (client : Socket) (m : Msg)
  | lost (client : Socket)
  | connected (peer : PeerId) (client : Socket)
  | refused (peer : PeerId)
  | accepted (close : Bool) (client : Socket) (peer : PeerId)

inductive Effect.Gives : Effect → Label → Process → Prop
  | silent {next created} : Gives (.silent next created) (.silent created) next
  | sent {client m next failed} : Gives (.send client m next failed) (.sent client m) next
  | failed {client m sent next} : Gives (.send client m sent next) (.failed client m) next
  | received {client received lost m} :
    Gives (.receive client received lost) (.received client m) (received m)
  | lost {client received next} : Gives (.receive client received next) (.lost client) next
  | connected {peer connected refused client} :
    Gives (.connect peer connected refused) (.connected peer client) (connected client)
  | refused {peer connected next} : Gives (.connect peer connected next) (.refused peer) next
  | accepted {close accepted client peer} :
    Gives (.accept close accepted) (.accepted close client peer) (accepted client peer)

/-- The labels with which a process can end: nothing is sent and nothing is made. -/
def Label.fatal : Label → Prop
  | silent created => created = []
  | failed _ _ => True
  | received _ _ => True
  | lost _ => True
  | _ => False

inductive ThreadStep (pr : Process) : Thread → Label → Process → Prop
  | dies {t label} (fatal : label.fatal) : ThreadStep pr t label pr.terminate
  -- `modifyGroupMembership`
  | call {t peerId operationType}
      (place : pr.operation t = some (.call peerId operationType)) :
    ThreadStep pr t (.silent [])
      ({ pr with service := pr.service.countRequest }.setOperation
        (.lock (pr.service.createRequestMsg peerId operationType)) t)
  | lock {t requestMsg} (place : pr.operation t = some (.lock requestMsg))
      (free : pr.lockTaken t = false) :
    ThreadStep pr t (.silent [])
      ((pr.beginOperation requestMsg).setOperation
        (.sendRequestMsg requestMsg (pr.beginOperation requestMsg).service.alivePeers.toList) t)
  | sendRequestMsg {t requestMsg peerId rest client}
      (place : pr.operation t = some (.sendRequestMsg requestMsg (peerId :: rest)))
      (found : pr.service.tcpClientMap peerId = some client) :
    ThreadStep pr t (.sent client (.request requestMsg))
      (pr.setOperation (.sendRequestMsg requestMsg rest) t)
  | requestsSent {t requestMsg} (place : pr.operation t = some (.sendRequestMsg requestMsg [])) :
    ThreadStep pr t (.silent [])
      (pr.setOperation (.waitForOkMsg requestMsg pr.service.alivePeers.toList) t)
  | waitForOkMsg {t requestMsg peerId rest client okMsg}
      (place : pr.operation t = some (.waitForOkMsg requestMsg (peerId :: rest)))
      (found : pr.service.tcpClientMap peerId = some client)
      (expected : okMsg.requestId = requestMsg.requestId) :
    ThreadStep pr t (.received client (.ok okMsg))
      (pr.setOperation (.waitForOkMsg requestMsg rest) t)
  | newView {t requestMsg} (place : pr.operation t = some (.waitForOkMsg requestMsg [])) :
    ThreadStep pr t (.silent [pr.creation requestMsg])
      ((pr.endOperation requestMsg).setOperation .printNewlyInstalledView t)
  | printNewlyInstalledView {t} (place : pr.operation t = some .printNewlyInstalledView)
      (free : pr.lockTaken t = false) :
    ThreadStep pr t (.silent []) (pr.setOperation .sendNewViewMsg t)
  | sendNewViewMsg {t} (place : pr.operation t = some .sendNewViewMsg) :
    ThreadStep pr t (.silent []) (pr.setOperation (.lockView pr.service.viewId) t)
  | lockView {t newViewId} (place : pr.operation t = some (.lockView newViewId))
      (free : pr.lockTaken t = false) :
    ThreadStep pr t (.silent [])
      (pr.setOperation (.deliver
        { pr.service.createNewViewMsg pr.me with newViewId := newViewId }
        pr.service.alivePeers.toList) t)
  | deliver {t newViewMsg peerId rest client}
      (place : pr.operation t = some (.deliver newViewMsg (peerId :: rest)))
      (found : pr.service.tcpClientMap peerId = some client) :
    ThreadStep pr t (.sent client (.newView newViewMsg))
      (pr.setOperation (.deliver newViewMsg rest) t)
  | delivered {t newViewMsg} (place : pr.operation t = some (.deliver newViewMsg [])) :
    ThreadStep pr t (.silent []) (pr.finishOperation t)
  -- `findLeader` and `startAsLeader`
  | skipMyself {rest} (place : pr.main = .findLeader (pr.me :: rest)) :
    ThreadStep pr .main (.silent []) { pr with main := .findLeader rest }
  | leaderFound {peerId rest client} (place : pr.main = .findLeader (peerId :: rest))
      (other : peerId ≠ pr.me) :
    ThreadStep pr .main (.connected peerId client)
      { pr with
        service := { pr.service with leaderPeerId := peerId }.insertClient peerId client
        main := .startAsFollower }
  | noLeaderThere {peerId rest} (place : pr.main = .findLeader (peerId :: rest))
      (other : peerId ≠ pr.me) :
    ThreadStep pr .main (.refused peerId) { pr with main := .findLeader rest }
  | noLeaderFound (place : pr.main = .findLeader []) :
    ThreadStep pr .main (.silent [])
      { pr with service := { pr.service with leaderPeerId := pr.me }, main := .startAsLeader }
  | startAsLeader (place : pr.main = .startAsLeader) (free : pr.lockTaken .main = false) :
    ThreadStep pr .main (.silent [⟨pr.service.installedView pr.me, none⟩])
      { pr.install with main := .accept }
  | accept {client newPeerId} (place : pr.main = .accept) :
    ThreadStep pr .main (.accepted false client newPeerId)
      { pr with
        service := pr.service.insertClient newPeerId client
        main := .addPeer (.call newPeerId .ADD) }
  -- `startAsFollower`
  | followerReceives {client m} (place : pr.main = .startAsFollower)
      (found : pr.service.tcpClientMap pr.service.leaderPeerId = some client)
      (free : pr.lockTaken .main = false) :
    ThreadStep pr .main (.received client m) (pr.followerReceives m)
  | leaderLost {client} (place : pr.main = .startAsFollower)
      (found : pr.service.tcpClientMap pr.service.leaderPeerId = some client) :
    ThreadStep pr .main (.lost client) { pr with main := .waitForLeaderCrash }
  | sendOkMsg {client} (place : pr.main = .sendOkMsg)
      (found : pr.service.tcpClientMap pr.service.leaderPeerId = some client) :
    ThreadStep pr .main (.sent client (.ok pr.service.createOkMsg))
      { pr with main := .startAsFollower }
  | okMsgFailed {client} (place : pr.main = .sendOkMsg)
      (found : pr.service.tcpClientMap pr.service.leaderPeerId = some client) :
    ThreadStep pr .main (.failed client (.ok pr.service.createOkMsg))
      { pr with main := .waitForLeaderCrash }
  -- `handleLeaderCrash`
  | waitForLeaderCrash (place : pr.main = .waitForLeaderCrash)
      (crashed : pr.service.leaderCrashed = true) :
    ThreadStep pr .main (.silent [])
      { pr with
        service := { pr.service with leaderCrashed := false }
        main := .handleLeaderCrash }
  | handleLeaderCrash (place : pr.main = .handleLeaderCrash) (idle : pr.detector = none) :
    ThreadStep pr .main (.silent []) pr.handleLeaderCrash
  | reconnect {newLeaderMsg peer rest tempAlivePeers client}
      (place : pr.main = .sendNewLeaderMsg newLeaderMsg (peer :: rest) tempAlivePeers) :
    ThreadStep pr .main (.connected peer client)
      { pr with main := .introduce newLeaderMsg peer client rest tempAlivePeers }
  | unreachable {newLeaderMsg peer rest tempAlivePeers}
      (place : pr.main = .sendNewLeaderMsg newLeaderMsg (peer :: rest) tempAlivePeers) :
    ThreadStep pr .main (.refused peer)
      { pr with main := .sendNewLeaderMsg newLeaderMsg rest tempAlivePeers }
  | reconnected {newLeaderMsg tempAlivePeers}
      (place : pr.main = .sendNewLeaderMsg newLeaderMsg [] tempAlivePeers) :
    ThreadStep pr .main (.silent [])
      { pr with
        service := { pr.service with alivePeers := tempAlivePeers }
        main := .waitForPendingRequestMsg tempAlivePeers.toList getDummyPendingRequestMsg }
  | introduce {newLeaderMsg peer client rest tempAlivePeers}
      (place : pr.main = .introduce newLeaderMsg peer client rest tempAlivePeers) :
    ThreadStep pr .main (.sent client (.newLeader newLeaderMsg))
      { pr with
        service := pr.service.insertClient peer client
        main := .sendNewLeaderMsg newLeaderMsg rest (tempAlivePeers.insert peer) }
  | introduceFailed {newLeaderMsg peer client rest tempAlivePeers}
      (place : pr.main = .introduce newLeaderMsg peer client rest tempAlivePeers) :
    ThreadStep pr .main (.failed client (.newLeader newLeaderMsg))
      { pr with main := .sendNewLeaderMsg newLeaderMsg rest tempAlivePeers }
  | pendingRequest {peer rest pendingRequestMsg client requestMsg}
      (place : pr.main = .waitForPendingRequestMsg (peer :: rest) pendingRequestMsg)
      (found : pr.service.tcpClientMap peer = some client) :
    ThreadStep pr .main (.received client (.request requestMsg))
      { pr with
        main := .waitForPendingRequestMsg rest
          (if requestMsg.operationType ≠ .NOTHING then requestMsg else pendingRequestMsg) }
  | notConnected {peer rest pendingRequestMsg}
      (place : pr.main = .waitForPendingRequestMsg (peer :: rest) pendingRequestMsg)
      (missing : pr.service.tcpClientMap peer = none) :
    ThreadStep pr .main (.silent [])
      { pr with main := .waitForPendingRequestMsg rest pendingRequestMsg }
  | completeRequest {pendingRequestMsg}
      (place : pr.main = .waitForPendingRequestMsg [] pendingRequestMsg)
      (pending : pendingRequestMsg.operationType ≠ .NOTHING) :
    ThreadStep pr .main (.silent [])
      { pr with
        main := .completeRequest
          (.call pendingRequestMsg.peerId pendingRequestMsg.operationType) }
  | nothingPending {pendingRequestMsg}
      (place : pr.main = .waitForPendingRequestMsg [] pendingRequestMsg)
      (nothing : pendingRequestMsg.operationType = .NOTHING) :
    ThreadStep pr .main (.silent [⟨pr.service.installedView pr.me, none⟩])
      { pr.install with main := .completeRequest .sendNewViewMsg }
  | waitForNewLeaderMsg {leaderClient leaderPeerId} (place : pr.main = .waitForNewLeaderMsg) :
    ThreadStep pr .main (.accepted true leaderClient leaderPeerId)
      { pr with
        service := { pr.service with leaderPeerId := leaderPeerId }.insertClient leaderPeerId
          leaderClient
        main := .greet leaderClient }
  | greet {leaderClient newLeaderMsg} (place : pr.main = .greet leaderClient) :
    ThreadStep pr .main (.received leaderClient (.newLeader newLeaderMsg))
      { pr with main := .sendPendingRequestMsg }
  | sendPendingRequestMsg {client} (place : pr.main = .sendPendingRequestMsg)
      (found : pr.service.tcpClientMap pr.service.leaderPeerId = some client) :
    ThreadStep pr .main (.sent client (.request pr.service.createPendingRequestMsg))
      { pr with main := .startAsFollower }

namespace Process

variable {pr next : Process} {label : Label}

/-- The steps of `modifyGroupMembership`, on either thread. -/
theorem threadStep_of_operationEffect {t : Thread} {operation : Operation}
    (place : pr.operation t = some operation)
    (gives : (pr.operationEffect t operation).Gives label next) : ThreadStep pr t label next := by
  unfold operationEffect sendTo at gives
  split at gives
  · cases gives
    exact .call place
  · split at gives
    · cases gives
    · rename_i free
      cases gives
      exact .lock place (Bool.eq_false_iff.mpr free)
  · split at gives
    · rename_i found
      cases gives
      · exact .sendRequestMsg place found
      · exact .dies trivial
    · cases gives
      exact .dies rfl
  · cases gives
    exact .requestsSent place
  · split at gives
    · rename_i found
      cases gives
      · dsimp only
        split
        · split
          · rename_i expected
            exact .waitForOkMsg place found expected
          · exact .dies trivial
        · exact .dies trivial
      · exact .dies trivial
    · cases gives
      exact .dies rfl
  · cases gives
    exact .newView place
  · split at gives
    · cases gives
    · rename_i free
      cases gives
      exact .printNewlyInstalledView place (Bool.eq_false_iff.mpr free)
  · cases gives
    exact .sendNewViewMsg place
  · split at gives
    · cases gives
    · rename_i free
      cases gives
      exact .lockView place (Bool.eq_false_iff.mpr free)
  · split at gives
    · rename_i found
      cases gives
      · exact .deliver place found
      · exact .dies trivial
    · cases gives
      exact .dies rfl
  · cases gives
    exact .delivered place

theorem threadStep_of_mainEffect (gives : pr.mainEffect.Gives label next) :
    ThreadStep pr .main label next := by
  unfold mainEffect sendToLeader at gives
  split at gives
  · rename_i place
    split at gives
    · rename_i same
      subst same
      cases gives
      exact .skipMyself place
    · rename_i other
      cases gives
      · exact .leaderFound place other
      · exact .noLeaderThere place other
  · rename_i place
    cases gives
    exact .noLeaderFound place
  · rename_i place
    split at gives
    · cases gives
    · rename_i free
      cases gives
      exact .startAsLeader place (Bool.eq_false_iff.mpr free)
  · rename_i place
    cases gives
    exact .accept place
  · rename_i place
    exact threadStep_of_operationEffect (by rw [operation, place]) gives
  · rename_i place
    split at gives
    · rename_i found
      split at gives
      · cases gives
      · rename_i free
        cases gives
        · exact .followerReceives place found (Bool.eq_false_iff.mpr free)
        · exact .leaderLost place found
    · cases gives
      exact .dies rfl
  · rename_i place
    split at gives
    · rename_i found
      cases gives
      · exact .sendOkMsg place found
      · exact .okMsgFailed place found
    · cases gives
      exact .dies rfl
  · rename_i place
    split at gives
    · rename_i crashed
      cases gives
      exact .waitForLeaderCrash place crashed
    · cases gives
  · rename_i place
    split at gives
    · rename_i idle
      cases gives
      exact .handleLeaderCrash place idle
    · cases gives
  · rename_i place
    cases gives
    · exact .reconnect place
    · exact .unreachable place
  · rename_i place
    cases gives
    exact .reconnected place
  · rename_i place
    cases gives
    · exact .introduce place
    · exact .introduceFailed place
  · rename_i place
    split at gives
    · rename_i found
      cases gives
      · dsimp only
        split
        · exact .pendingRequest place found
        · exact .dies trivial
      · exact .dies trivial
    · rename_i missing
      cases gives
      exact .notConnected place missing
  · rename_i place
    split at gives
    · rename_i pending
      cases gives
      exact .completeRequest place pending
    · rename_i nothing
      cases gives
      exact .nothingPending place (not_not.mp nothing)
  · rename_i place
    exact threadStep_of_operationEffect (by rw [operation, place]) gives
  · rename_i place
    cases gives
    exact .waitForNewLeaderMsg place
  · rename_i place
    cases gives
    · dsimp only
      split
      · exact .greet place
      · exact .dies trivial
    · exact .dies trivial
  · rename_i place
    split at gives
    · rename_i found
      cases gives
      · exact .sendPendingRequestMsg place found
      · exact .dies trivial
    · cases gives
      exact .dies rfl
  · cases gives

theorem threadStep_of_gives {t : Thread} (gives : (pr.effect t).Gives label next) :
    ThreadStep pr t label next := by
  cases t with
  | main => exact threadStep_of_mainEffect gives
  | detector =>
      unfold effect at gives
      dsimp only at gives
      split at gives
      · rename_i place
        exact threadStep_of_operationEffect place gives
      · cases gives

end Process

end GroupComm.Lab2
