import GroupComm.Lab2.Wiring

/-!
# The connections of a leader

`sendRequestMsg`, `waitForOkMsg` and `sendNewViewMsg` look every peer in `alivePeers` up with
`tcpClientMap.at`.  The two are kept in step as long as

* a takeover does not complete the addition of a peer it has no connection to,
* the failure detector does not delete a peer that the accept loop is adding, and
* it deletes nobody before the process has found out that it leads: `leaderPeerId` is 1 until
  then, so host 1 takes itself for the leader.

`leader_connected` is the invariant; `added_peer_unconnected` shows the first way to lose it.
-/

namespace GroupComm.Lab2

open MembershipService World Transition

/-- The places of a process that leads a group, takeovers apart. -/
def MainState.serves : MainState → Bool
  | startAsLeader => true
  | accept => true
  | addPeer _ => true
  | _ => false

/-- The places at which every live peer has a connection. -/
def MainState.connects : MainState → Bool
  | findLeader _ => true
  | startAsLeader => true
  | accept => true
  | addPeer _ => true
  | waitForPendingRequestMsg _ _ => true
  | completeRequest _ => true
  | _ => false

/-- The peers that a takeover has reached. -/
def MainState.reached : MainState → OrderedSet PeerId
  | sendNewLeaderMsg _ _ tempAlivePeers => tempAlivePeers
  | introduce _ _ _ _ tempAlivePeers => tempAlivePeers
  | _ => ∅

/-- The peers still to be addressed under the lock. -/
def Operation.rest : Operation → List PeerId
  | sendRequestMsg _ rest => rest
  | waitForOkMsg _ rest => rest
  | deliver _ rest => rest
  | _ => []

theorem Operation.rest_of_unlocked {operation : Operation} (unlocked : operation.locked = false) :
    operation.rest = [] := by
  cases operation
  case sendRequestMsg => cases unlocked
  case waitForOkMsg => cases unlocked
  case deliver => cases unlocked
  all_goals rfl

/-- The failure detector reports somebody to a process that takes itself for the leader. -/
def Process.startsDeletion (pr : Process) (order : List PeerId) : Bool :=
  decide (pr.me = pr.service.leaderPeerId) && (pr.heartBeats.detect order).2.isSome

/-- The failure detector is about to delete a peer that is being added. -/
def Process.deletesJoining (pr : Process) : Bool :=
  match pr.detector, pr.operation .main with
  | some (.lock requestMsg), some operation =>
      operation.change.any fun change => decide (change.1 = requestMsg.peerId)
  | _, _ => false

/-- A takeover is about to add a peer it has no connection to. -/
def Process.addsUnconnected (pr : Process) : Bool :=
  match pr.main with
  | .waitForPendingRequestMsg [] requestMsg =>
      decide (requestMsg.operationType = .ADD) &&
        (pr.service.tcpClientMap requestMsg.peerId).isNone
  | _ => false

/-- None of the three ways to lose a connection is taken. -/
def KeepsConnections (s : World) : Event → Prop
  | .tick i order =>
      (s.processes i).startsDeletion order = true → (s.processes i).main.serves = true
  | .run i .detector => (s.processes i).deletesJoining = false
  | .run i .main => (s.processes i).addsUnconnected = false
  | _ => True

instance (s : World) : ∀ e, Decidable (KeepsConnections s e)
  | .tick _ _ => inferInstanceAs (Decidable (_ → _))
  | .run _ .detector => inferInstanceAs (Decidable (_ = _))
  | .run _ .main => inferInstanceAs (Decidable (_ = _))
  | .start _ => inferInstanceAs (Decidable True)
  | .crash _ => inferInstanceAs (Decidable True)
  | .heartBeat _ _ => inferInstanceAs (Decidable True)
  | .fail _ _ => inferInstanceAs (Decidable True)

namespace Process

structure Linked (pr : Process) : Prop where
  connected : pr.main.connects = true → pr.service.Connected
  reached : ∀ p ∈ pr.main.reached, pr.service.tcpClientMap p ≠ none
  /-- A peer that the main thread is adding has a connection. -/
  joining : ∀ operation, pr.operation .main = some operation →
    ∀ p, operation.change = some (p, .ADD) → pr.service.tcpClientMap p ≠ none
  deleting : pr.detector ≠ none → pr.main.serves = true
  rest : ∀ t operation, pr.operation t = some operation →
    ∀ p ∈ operation.rest, p ∈ pr.service.alivePeers

/-- What the invariant says to a thread that addresses the live peers. -/
theorem Linked.addresses {pr : Process} (h : pr.Linked) {t : Thread} {operation : Operation}
    (place : pr.operation t = some operation) : pr.service.Connected ∧
      ∀ p ∈ operation.rest, pr.service.tcpClientMap p ≠ none := by
  have connected : pr.service.Connected := by
    apply h.connected
    rcases operation_cases place with ⟨_, main⟩ | ⟨_, main⟩ | ⟨_, detector⟩
    · rw [main]
      rfl
    · rw [main]
      rfl
    · have serves := h.deleting (by rw [detector]; exact Option.some_ne_none _)
      revert serves
      cases pr.main <;> simp [MainState.serves, MainState.connects]
  exact ⟨connected, fun p mem => connected p (h.rest t operation place p mem)⟩

/-- A process that is neither serving nor in `modifyGroupMembership`. -/
theorem Linked.of_idle {pr : Process} (detector : pr.detector = none)
    (main : pr.operation .main = none) (connected : pr.main.connects = true → pr.service.Connected)
    (reached : ∀ p ∈ pr.main.reached, pr.service.tcpClientMap p ≠ none) : pr.Linked := by
  refine ⟨connected, reached, ?_, fun busy => (busy detector).elim, ?_⟩
  · intro operation place
    rw [main] at place
    cases place
  · intro t operation place
    cases t with
    | main =>
        rw [main] at place
        cases place
    | detector =>
        change pr.detector = some operation at place
        rw [detector] at place
        cases place

theorem Linked.idle {pr : Process} (h : pr.Linked) (main : pr.main.serves = false) :
    pr.detector = none := by
  by_contra busy
  have serves := h.deleting busy
  rw [main] at serves
  cases serves

/-- A step of either thread to another place in `modifyGroupMembership`. -/
theorem Linked.setOperation {pr : Process} (h : pr.Linked) {t : Thread}
    {operation next : Operation} (place : pr.operation t = some operation) (data : Process)
    (main : data.main = pr.main) (detector : data.detector = pr.detector)
    (connected : data.service.Connected)
    (joining : t = .main → ∀ p, next.change = some (p, .ADD) →
      data.service.tcpClientMap p ≠ none)
    (rest : ∀ p ∈ next.rest, p ∈ data.service.alivePeers)
    (other : ∀ t' operation', t' ≠ t → pr.operation t' = some operation' →
      (∀ p ∈ operation'.rest, p ∈ data.service.alivePeers) ∧
        (t' = .main → ∀ p, operation'.change = some (p, .ADD) →
          data.service.tcpClientMap p ≠ none)) :
    (data.setOperation next t).Linked := by
  constructor
  · intro _
    rw [service_setOperation]
    exact connected
  · intro p mem
    have none : (data.setOperation next t).main.reached = ∅ := by
      rcases operation_cases place with ⟨rfl, here⟩ | ⟨rfl, here⟩ | ⟨rfl, here⟩
      · rw [setOperation_addPeer (main.trans here)]
        rfl
      · rw [setOperation_completeRequest (main.trans here)]
        rfl
      · have serves := h.deleting (by rw [here]; exact Option.some_ne_none _)
        change data.main.reached = ∅
        rw [main]
        revert serves
        cases pr.main <;> simp [MainState.serves, MainState.reached]
    rw [none] at mem
    exact (OrderedSet.notMem_empty p mem).elim
  · intro operation' here p change
    rw [operation_setOperation place main detector] at here
    rw [service_setOperation]
    split at here
    · rename_i same
      cases here
      exact joining same.symm p change
    · rename_i apart
      exact (other .main operation' apart here).2 rfl p change
  · intro busy
    rcases operation_cases place with ⟨rfl, here⟩ | ⟨rfl, here⟩ | ⟨rfl, here⟩
    · rw [setOperation_addPeer (main.trans here)]
      rfl
    · rw [setOperation_completeRequest (main.trans here)] at busy
      rw [ne_eq, detector] at busy
      have serves := h.deleting busy
      rw [here] at serves
      cases serves
    · change data.main.serves = true
      rw [main]
      exact h.deleting (by rw [here]; exact Option.some_ne_none _)
  · intro t' operation' here p mem
    rw [operation_setOperation place main detector] at here
    rw [service_setOperation]
    split at here
    · cases here
      exact rest p mem
    · rename_i apart
      exact (other t' operation' apart here).1 p mem

/-- A step that leaves the data alone. -/
theorem Linked.goOn {pr : Process} (h : pr.Linked) {t : Thread} {operation next : Operation}
    (place : pr.operation t = some operation) (data : Process) (main : data.main = pr.main)
    (detector : data.detector = pr.detector)
    (tcpClientMap : data.service.tcpClientMap = pr.service.tcpClientMap)
    (alivePeers : data.service.alivePeers = pr.service.alivePeers)
    (change : ∀ change ∈ next.change, operation.change = some change)
    (rest : ∀ p ∈ next.rest, p ∈ operation.rest ∨ p ∈ pr.service.alivePeers) :
    (data.setOperation next t).Linked := by
  refine h.setOperation place data main detector ?_ ?_ ?_ ?_
  · intro p mem
    rw [alivePeers] at mem
    rw [tcpClientMap]
    exact (h.addresses place).1 p mem
  · rintro rfl p here
    rw [tcpClientMap]
    exact h.joining operation place p (change _ here)
  · intro p mem
    rw [alivePeers]
    rcases rest p mem with before | alive
    · exact h.rest t operation place p before
    · exact alive
  · intro t' operation' _ here
    rw [alivePeers, tcpClientMap]
    refine ⟨h.rest t' operation' here, ?_⟩
    rintro rfl p
    exact h.joining operation' here p

/-- The first block: nobody is inside the other thread's block, and the peer that is deleted
is not one that is being added. -/
theorem Linked.beginOperation {pr : Process} (h : pr.Linked) {t : Thread} {m : RequestMsg}
    (place : pr.operation t = some (.lock m)) (free : pr.lockTaken t = false)
    (apart : t = .detector → pr.deletesJoining = false) :
    ((pr.beginOperation m).setOperation
      (.sendRequestMsg m (pr.beginOperation m).service.alivePeers.toList) t).Linked := by
  have kept : ∀ p, (m.operationType = .DEL → p ≠ m.peerId) →
      pr.service.tcpClientMap p ≠ none →
        (pr.beginOperation m).service.tcpClientMap p ≠ none := by
    intro p notDeleted found
    unfold Process.beginOperation beginModification
    dsimp only
    split
    · rename_i del
      dsimp only
      rw [Function.update_of_ne (notDeleted del)]
      exact found
    · exact found
  refine h.setOperation place (pr.beginOperation m) rfl rfl
    (connected_beginModification (h.addresses place).1 _ _) ?_ (fun _ mem => mem) ?_
  · rintro rfl p change
    obtain ⟨peer, add⟩ := Prod.mk.inj (Option.some.inj change)
    refine kept p (fun del => ?_) (h.joining _ place p change)
    rw [add] at del
    cases del
  · intro t' operation' other here
    have unlocked := locked_eq_false_of_free free other here
    refine ⟨?_, ?_⟩
    · rw [Operation.rest_of_unlocked unlocked]
      intro p mem
      cases mem
    · rintro rfl p change
      refine kept p (fun _ same => ?_) (h.joining _ here p change)
      cases t with
      | main => exact other rfl
      | detector =>
          have deletes := apart rfl
          change pr.detector = some _ at place
          unfold deletesJoining at deletes
          rw [place, here] at deletes
          simp [change, same] at deletes

/-- The end of the first block. -/
theorem Linked.endOperation {pr : Process} (h : pr.Linked) (sound : pr.Sound) {t : Thread}
    {m : RequestMsg} (place : pr.operation t = some (.waitForOkMsg m [])) :
    ((pr.endOperation m).setOperation .printNewlyInstalledView t).Linked := by
  have larger : ∀ p, p ∈ pr.service.alivePeers → p ∈ (pr.endOperation m).service.alivePeers := by
    intro p mem
    unfold Process.endOperation install endModification
    dsimp only
    split
    · exact OrderedSet.mem_insert.mpr (Or.inr mem)
    · exact mem
  have joins : m.operationType = .ADD → pr.service.tcpClientMap m.peerId ≠ none := by
    intro add
    cases t with
    | main => exact h.joining _ place _ (by rw [← add]; rfl)
    | detector =>
        have deletes := sound.deletes _ place _ rfl
        rw [add] at deletes
        cases deletes
  refine h.setOperation place (pr.endOperation m) rfl rfl
    (connected_endModification (h.addresses place).1 joins) ?_ ?_ ?_
  · intro _ p change
    cases change
  · intro p mem
    cases mem
  · intro t' operation' _ here
    refine ⟨fun p mem => larger p (h.rest t' operation' here p mem), ?_⟩
    rintro rfl p
    exact h.joining operation' here p

theorem Linked.finishOperation {pr : Process} (h : pr.Linked) {t : Thread}
    {operation : Operation} (place : pr.operation t = some operation) :
    (pr.finishOperation t).Linked := by
  have connected := (h.addresses place).1
  rcases operation_cases place with ⟨rfl, main⟩ | ⟨rfl, main⟩ | ⟨rfl, detector⟩
  · rw [finishOperation_addPeer main]
    refine ⟨fun _ => connected, fun p mem => (OrderedSet.notMem_empty p mem).elim,
      fun _ here => (nomatch here), fun _ => rfl, ?_⟩
    intro t' operation' here
    cases t' with
    | main => cases here
    | detector => exact h.rest .detector operation' here
  · rw [finishOperation_completeRequest main]
    refine ⟨fun _ => connected, fun p mem => (OrderedSet.notMem_empty p mem).elim,
      fun _ here => (nomatch here), fun _ => rfl, ?_⟩
    intro t' operation' here
    cases t' with
    | main => cases here
    | detector => exact h.rest .detector operation' here
  · obtain ⟨connects, reached, joining, _, rest⟩ := h
    refine ⟨connects, reached, joining, fun busy => (busy rfl).elim, ?_⟩
    intro t' operation' here
    cases t' with
    | main => exact rest .main operation' here
    | detector => cases here

theorem Linked.heartBeat {pr : Process} (h : pr.Linked) (p : PeerId) : (pr.heartBeat p).Linked :=
  ⟨h.connected, h.reached, h.joining, h.deleting, h.rest⟩

theorem Linked.tick {pr : Process} (h : pr.Linked) {order : List PeerId}
    (serves : pr.startsDeletion order = true → pr.main.serves = true) :
    (pr.tick order).Linked := by
  obtain ⟨connected, reached, joining, deleting, rest⟩ := h
  unfold Process.tick
  dsimp only
  split
  · rename_i crashedPeerId reported
    unfold handlePeerFailure
    split
    · rename_i isLeader
      refine ⟨connected, reached, joining, fun _ => serves ?_, ?_⟩
      · rw [startsDeletion, reported, Bool.and_eq_true]
        exact ⟨decide_eq_true isLeader, rfl⟩
      · intro t operation place
        cases t with
        | main => exact rest .main operation place
        | detector =>
            cases place
            intro p mem
            cases mem
    · split
      · exact ⟨connected, reached, joining, deleting, rest⟩
      · exact ⟨connected, reached, joining, deleting, rest⟩
  · exact ⟨connected, reached, joining, deleting, rest⟩

theorem connected_insertClient {s : MembershipService Socket} (connected : s.Connected)
    (p : PeerId) (k : Socket) : (s.insertClient p k).Connected := by
  intro q mem
  unfold insertClient
  dsimp only
  rw [Function.update_apply]
  split
  · exact Option.some_ne_none _
  · exact connected q mem

/-- A process that has ended, or is at a place where nothing has to be connected. -/
theorem Linked.of_quiet {pr : Process} (detector : pr.detector = none)
    (main : pr.main.connects = false) (reached : pr.main.reached = ∅) : pr.Linked := by
  refine .of_idle detector ?_ ?_ ?_
  · unfold Process.operation
    dsimp only
    split
    · rename_i here
      rw [here] at main
      cases main
    · rename_i here
      rw [here] at main
      cases main
    · rfl
  · intro connects
    rw [main] at connects
    cases connects
  · rw [reached]
    intro p mem
    exact (OrderedSet.notMem_empty p mem).elim

end Process

open Process

/-- The connections are kept by every step of a thread that takes none of the three ways. -/
theorem ThreadStep.linked {pr next : Process} {t : Thread} {label : Label}
    (step : ThreadStep pr t label next) (sound : pr.Sound) (h : pr.Linked)
    (apart : t = .detector → pr.deletesJoining = false)
    (joins : t = .main → pr.addsUnconnected = false) : next.Linked := by
  cases step with
  | dies _ => exact .of_quiet rfl rfl rfl
  | call place =>
      exact h.goOn place { pr with service := pr.service.countRequest } rfl rfl rfl rfl
        (fun _ change => change) (fun _ mem => nomatch mem)
  | lock place free => exact h.beginOperation place free apart
  | sendRequestMsg place found =>
      exact h.goOn place pr rfl rfl rfl rfl (fun _ change => change)
        (fun _ mem => Or.inl (List.mem_cons_of_mem _ mem))
  | requestsSent place =>
      exact h.goOn place pr rfl rfl rfl rfl (fun _ change => change) (fun _ mem => Or.inr mem)
  | waitForOkMsg place found expected =>
      exact h.goOn place pr rfl rfl rfl rfl (fun _ change => change)
        (fun _ mem => Or.inl (List.mem_cons_of_mem _ mem))
  | newView place => exact h.endOperation sound place
  | printNewlyInstalledView place free =>
      exact h.goOn place pr rfl rfl rfl rfl (fun _ change => nomatch change)
        (fun _ mem => nomatch mem)
  | sendNewViewMsg place =>
      exact h.goOn place pr rfl rfl rfl rfl (fun _ change => nomatch change)
        (fun _ mem => nomatch mem)
  | lockView place free =>
      exact h.goOn place pr rfl rfl rfl rfl (fun _ change => nomatch change)
        (fun _ mem => Or.inr mem)
  | deliver place found =>
      exact h.goOn place pr rfl rfl rfl rfl (fun _ change => nomatch change)
        (fun _ mem => Or.inl (List.mem_cons_of_mem _ mem))
  | delivered place => exact h.finishOperation place
  | skipMyself place =>
      exact .of_idle (h.idle (by rw [place]; rfl)) rfl
        (fun _ => h.connected (by rw [place]; rfl))
        (fun p mem => (OrderedSet.notMem_empty p mem).elim)
  | leaderFound place other => exact .of_quiet (h.idle (by rw [place]; rfl)) rfl rfl
  | noLeaderThere place other =>
      exact .of_idle (h.idle (by rw [place]; rfl)) rfl
        (fun _ => h.connected (by rw [place]; rfl))
        (fun p mem => (OrderedSet.notMem_empty p mem).elim)
  | noLeaderFound place =>
      exact .of_idle (h.idle (by rw [place]; rfl)) rfl
        (fun _ => h.connected (by rw [place]; rfl))
        (fun p mem => (OrderedSet.notMem_empty p mem).elim)
  | startAsLeader place free =>
      refine ⟨fun _ => h.connected (by rw [place]; rfl),
        fun p mem => (OrderedSet.notMem_empty p mem).elim, fun _ here => (nomatch here),
        fun _ => rfl, ?_⟩
      intro t operation here
      cases t with
      | main => cases here
      | detector => exact h.rest .detector operation here
  | @accept client newPeerId place =>
      refine ⟨fun _ => connected_insertClient (h.connected (by rw [place]; rfl)) _ _,
        fun p mem => (OrderedSet.notMem_empty p mem).elim, ?_, fun _ => rfl, ?_⟩
      · intro operation here p change
        cases here
        cases change
        unfold insertClient
        dsimp only
        rw [Function.update_self]
        exact Option.some_ne_none _
      · intro t operation here
        cases t with
        | main =>
            cases here
            intro p mem
            cases mem
        | detector => exact h.rest .detector operation here
  | @followerReceives client m place found free =>
      have idle := h.idle (by rw [place]; rfl)
      cases m with
      | request m => exact .of_quiet idle rfl rfl
      | newView m =>
          have main : (pr.followerReceives (.newView m)).main = .startAsFollower := place
          exact .of_quiet idle (by rw [main]; rfl) (by rw [main]; rfl)
      | ok m => exact .of_quiet rfl rfl rfl
      | newLeader m => exact .of_quiet rfl rfl rfl
  | leaderLost place found => exact .of_quiet (h.idle (by rw [place]; rfl)) rfl rfl
  | sendOkMsg place found => exact .of_quiet (h.idle (by rw [place]; rfl)) rfl rfl
  | okMsgFailed place found => exact .of_quiet (h.idle (by rw [place]; rfl)) rfl rfl
  | waitForLeaderCrash place crashed => exact .of_quiet (h.idle (by rw [place]; rfl)) rfl rfl
  | handleLeaderCrash place idle =>
      unfold Process.handleLeaderCrash
      dsimp only
      split
      · exact .of_quiet idle rfl rfl
      · exact .of_quiet idle rfl rfl
  | reconnect place =>
      have reached := h.reached
      rw [place] at reached
      exact .of_idle (h.idle (by rw [place]; rfl)) rfl (fun connects => nomatch connects) reached
  | unreachable place =>
      have reached := h.reached
      rw [place] at reached
      exact .of_idle (h.idle (by rw [place]; rfl)) rfl (fun connects => nomatch connects) reached
  | reconnected place =>
      have reached := h.reached
      rw [place] at reached
      exact .of_idle (h.idle (by rw [place]; rfl)) rfl (fun _ => reached)
        (fun p mem => (OrderedSet.notMem_empty p mem).elim)
  | @introduce newLeaderMsg peer client rest tempAlivePeers place =>
      have reached := h.reached
      rw [place] at reached
      refine .of_idle (h.idle (by rw [place]; rfl)) rfl (fun connects => nomatch connects) ?_
      intro p mem
      unfold insertClient
      dsimp only
      rw [Function.update_apply]
      split
      · exact Option.some_ne_none _
      · rename_i other
        rcases OrderedSet.mem_insert.mp mem with same | before
        · exact (other same).elim
        · exact reached p before
  | introduceFailed place =>
      have reached := h.reached
      rw [place] at reached
      exact .of_idle (h.idle (by rw [place]; rfl)) rfl (fun connects => nomatch connects) reached
  | pendingRequest place found =>
      exact .of_idle (h.idle (by rw [place]; rfl)) rfl
        (fun _ => h.connected (by rw [place]; rfl))
        (fun p mem => (OrderedSet.notMem_empty p mem).elim)
  | notConnected place missing =>
      exact .of_idle (h.idle (by rw [place]; rfl)) rfl
        (fun _ => h.connected (by rw [place]; rfl))
        (fun p mem => (OrderedSet.notMem_empty p mem).elim)
  | @completeRequest requestMsg place pending =>
      have idle := h.idle (by rw [place]; rfl)
      refine ⟨fun _ => h.connected (by rw [place]; rfl),
        fun p mem => (OrderedSet.notMem_empty p mem).elim, ?_, fun busy => (busy idle).elim, ?_⟩
      · intro operation here p change missing
        cases here
        obtain ⟨peer, add⟩ := Prod.mk.inj (Option.some.inj change)
        have unconnected := joins rfl
        unfold addsUnconnected at unconnected
        rw [place] at unconnected
        dsimp only at unconnected missing
        rw [← peer] at missing
        rw [add, missing] at unconnected
        cases unconnected
      · intro t operation here
        cases t with
        | main =>
            cases here
            intro p mem
            cases mem
        | detector => exact h.rest .detector operation here
  | nothingPending place nothing =>
      have idle := h.idle (by rw [place]; rfl)
      refine ⟨fun _ => h.connected (by rw [place]; rfl),
        fun p mem => (OrderedSet.notMem_empty p mem).elim, ?_, fun busy => (busy idle).elim, ?_⟩
      · intro operation here p change
        cases here
        cases change
      · intro t operation here
        cases t with
        | main =>
            cases here
            intro p mem
            cases mem
        | detector => exact h.rest .detector operation here
  | waitForNewLeaderMsg place => exact .of_quiet (h.idle (by rw [place]; rfl)) rfl rfl
  | greet place => exact .of_quiet (h.idle (by rw [place]; rfl)) rfl rfl
  | sendPendingRequestMsg place found => exact .of_quiet (h.idle (by rw [place]; rfl)) rfl rfl

/-- A new process has nobody to connect to. -/
theorem Process.Linked.fresh (p : PeerId) (hosts : List PeerId) :
    Linked { me := p, main := .findLeader hosts } :=
  .of_idle rfl rfl (fun _ p mem => (OrderedSet.notMem_empty p mem).elim)
    (fun p mem => (OrderedSet.notMem_empty p mem).elim)

theorem linked_of_reachable {hosts : List PeerId} {s : World}
    (reach : Reach (World.step hosts) KeepsConnections {} s) (i : ProcId) :
    (s.processes i).Linked := by
  have all : ∀ j, (s.processes j).Linked := by
    refine reach.invariant_with (Q := Wired) (P := fun s => ∀ j, (s.processes j).Linked)
      (fun _ earlier => wired_of_reachable earlier.always) (fun j => .of_quiet rfl rfl rfl) ?_
    intro s e s' wired before keeps taken
    refine (worldStep_of_step taken).forall_processes before fun j next step => ?_
    cases step with
    | start => exact .fresh _ _
    | crash _ => exact .of_quiet rfl rfl rfl
    | heartBeat _ _ _ => exact (before j).heartBeat _
    | tick _ _ => exact (before j).tick keeps
    | @thread _ _ t label _ event _ step _ _ =>
        rcases event with rfl | ⟨rfl, k, m, rfl⟩
        · cases t with
          | main => exact step.linked (wired.sound j) (before j) (fun h => nomatch h) fun _ => keeps
          | detector =>
              exact step.linked (wired.sound j) (before j) (fun _ => keeps) (fun h => nomatch h)
        · have unconnected : (∀ m, (s.processes j).main ≠ .waitForPendingRequestMsg [] m) →
              (s.processes j).addsUnconnected = false := by
            intro elsewhere
            unfold addsUnconnected
            split
            · rename_i here
              exact (elsewhere _ here).elim
            · rfl
          cases step with
          | dies _ => exact .of_quiet rfl rfl rfl
          | okMsgFailed place found =>
              exact (ThreadStep.okMsgFailed place found).linked (wired.sound j) (before j)
                (fun h => nomatch h) fun _ => unconnected (by simp [place])
          | introduceFailed place =>
              exact (ThreadStep.introduceFailed place).linked (wired.sound j) (before j)
                (fun h => nomatch h) fun _ => unconnected (by simp [place])
  exact all i

/-- **A leader is connected.**  In every run that keeps connections, whenever a thread is in
`modifyGroupMembership` or `sendNewViewMsg`, every live peer of its process has a connection,
and so has every peer it still has to address. -/
theorem leader_connected {hosts : List PeerId} {s : World}
    (reach : Reach (World.step hosts) KeepsConnections {} s) {i : ProcId} {t : Thread}
    {operation : Operation} (place : (s.processes i).operation t = some operation) :
    (s.processes i).service.Connected ∧
      ∀ p ∈ operation.rest, (s.processes i).service.tcpClientMap p ≠ none :=
  (linked_of_reachable reach i).addresses place

/-! ## A takeover completes the addition of host 4

Host 1 leads hosts 2 and 3.  It crashes after it has sent them the request to add host 4,
which has connected to it. -/

/-- Hosts 1, 2 and 3 form a group, in which process `i` is on host `i + 1`. -/
def threeHostsRun : List Event :=
  [.start 1] ++ mainSteps 0 7 ++
  [.start 2] ++ mainSteps 1 1 ++ mainSteps 0 10 ++ mainSteps 1 1 ++
  [.start 3] ++ mainSteps 2 1 ++ mainSteps 0 4 ++ mainSteps 1 2 ++ mainSteps 0 9 ++
  mainSteps 1 1 ++ mainSteps 2 1

/-- Process `i` learns that host 1 has crashed and that host `p` is up. -/
def detectRun (i : ProcId) (p : PeerId) : List Event :=
  [.heartBeat i 1, .tick i [1], .tick i [1], .heartBeat i p, .tick i [1, p]]

def pendingAdditionRun : List Event :=
  threeHostsRun ++
  [.start 4] ++ mainSteps 3 1 ++ mainSteps 0 5 ++ mainSteps 1 2 ++ mainSteps 2 2 ++
  [.crash 0] ++ mainSteps 1 1 ++ mainSteps 2 1 ++ detectRun 1 3 ++ detectRun 2 2 ++
  mainSteps 2 2 ++ mainSteps 1 4 ++ mainSteps 2 3 ++ mainSteps 1 6 ++ mainSteps 2 2 ++
  mainSteps 1 6

theorem pendingAdditionRun_through :
    (replay (World.step [1, 2, 3, 4, 5]) {} pendingAdditionRun).isSome = true := by
  decide +kernel

def pendingAdditionState : World :=
  (replay (World.step [1, 2, 3, 4, 5]) {} pendingAdditionRun).get pendingAdditionRun_through

/-- **A member without a connection.**  Host 2 has added host 4 to its live peers and is about
to send it the new view. -/
theorem added_peer_unconnected :
    ¬ ∀ (hosts : List PeerId) (s : World) (i : ProcId) (t : Thread) (operation : Operation),
      Reach (World.step hosts) Always {} s →
      (s.processes i).operation t = some operation → operation.locked = true →
        (s.processes i).service.Connected := by
  intro always
  have reach : Reach (World.step [1, 2, 3, 4, 5]) Always {} pendingAdditionState :=
    .of_isSome (allowedAlong_always _ _) pendingAdditionRun_through
  have place : ∃ operation, (pendingAdditionState.processes 1).operation .main = some operation ∧
      operation.locked = true := by
    have delivers : ((pendingAdditionState.processes 1).operation .main).any Operation.locked =
        true := by
      decide +kernel
    exact (Option.any_eq_true _ _).mp delivers
  obtain ⟨operation, place, locked⟩ := place
  have connected := always _ _ 1 .main operation reach place locked 4 (by decide +kernel)
  revert connected
  decide +kernel

/-- Host 1 is about to send the first view with host 2. -/
def addingRun : List Event :=
  [.start 1] ++ mainSteps 0 7 ++ [.start 2] ++ mainSteps 1 1 ++ mainSteps 0 8

theorem addingRun_through : (replay (World.step [1, 2, 3, 4, 5]) {} addingRun).isSome = true := by
  decide +kernel

theorem leader_connected_adding :
    let s := (replay (World.step [1, 2, 3, 4, 5]) {} addingRun).get addingRun_through
    (s.processes 0).service.Connected ∧
      ∀ p ∈ [(2 : PeerId)], (s.processes 0).service.tcpClientMap p ≠ none :=
  leader_connected (i := 0) (t := .main)
    (show Reach (World.step [1, 2, 3, 4, 5]) KeepsConnections {} _ from
      .of_isSome (by decide +kernel) addingRun_through)
    (show _ = some (.deliver ⟨3, 2, [1, 2]⟩ [2]) by decide +kernel)

end GroupComm.Lab2
