import GroupComm.Lab2.ThreadStep

/-!
# What a process keeps by itself

Facts about a single process that hold whatever the network and the other processes do, and
what its steps have to do with its sockets.
-/

namespace GroupComm.Lab2

open MembershipService

/-- The peer and the type of an operation that has not yet changed the group. -/
def Operation.change : Operation → Option (PeerId × OperationTypeEnum)
  | call peerId operationType => some (peerId, operationType)
  | lock m => some (m.peerId, m.operationType)
  | sendRequestMsg m _ => some (m.peerId, m.operationType)
  | waitForOkMsg m _ => some (m.peerId, m.operationType)
  | _ => none

/-- The places of a process that has or looks for another leader. -/
def MainState.follows : MainState → Bool
  | findLeader _ => true
  | startAsFollower => true
  | sendOkMsg => true
  | waitForLeaderCrash => true
  | handleLeaderCrash => true
  | waitForNewLeaderMsg => true
  | greet _ => true
  | sendPendingRequestMsg => true
  | _ => false

/-- The peers that are still to be connected to in a takeover. -/
def MainState.toConnect : MainState → List PeerId
  | sendNewLeaderMsg _ rest _ => rest
  | introduce _ _ _ rest _ => rest
  | _ => []

namespace Process

structure Sound (pr : Process) : Prop where
  /-- The two threads are not both inside a block under `alivePeersMutex`. -/
  exclusive : pr.main.locked = true → pr.detector.any Operation.locked = false
  /-- The failure detector only deletes. -/
  deletes : ∀ operation ∈ pr.detector, ∀ change ∈ operation.change, change.2 = .DEL
  searching : ∀ rest, pr.main = .findLeader rest → ∀ p, pr.service.tcpClientMap p = none
  waiting : pr.main = .waitForNewLeaderMsg → ∀ p, pr.service.tcpClientMap p = none
  greeting : ∀ k, pr.main = .greet k →
    ∀ k', pr.service.tcpClientMap pr.service.leaderPeerId = some k' → k' = k
  notItself : pr.main.follows = true → pr.me ∉ pr.service.alivePeers
  notToItself : pr.me ∉ pr.main.toConnect

theorem Sound.fresh (p : PeerId) (hosts : List PeerId) :
    Sound { me := p, main := .findLeader hosts } where
  exclusive locked := by cases locked
  deletes := by simp
  searching _ _ _ := rfl
  waiting main := by cases main
  greeting _ main := by cases main
  notItself _ := OrderedSet.notMem_empty _
  notToItself := List.not_mem_nil

/-- Only where a thread stands and what its process has seen has changed. -/
theorem Sound.of_quiet {pr next : Process} (sound : pr.Sound) (me : next.me = pr.me)
    (alivePeers : next.service.alivePeers = pr.service.alivePeers)
    (tcpClientMap : next.service.tcpClientMap = pr.service.tcpClientMap)
    (leaderPeerId : next.service.leaderPeerId = pr.service.leaderPeerId)
    (main : next.main = pr.main) (detector : next.detector = pr.detector) : next.Sound := by
  obtain ⟨exclusive, deletes, searching, waiting, greeting, notItself, notToItself⟩ := sound
  constructor
  · rwa [main, detector]
  · rwa [detector]
  · rwa [main, tcpClientMap]
  · rwa [main, tcpClientMap]
  · rwa [main, tcpClientMap, leaderPeerId]
  · rwa [main, me, alivePeers]
  · rwa [main, me]

theorem Sound.terminate {pr : Process} : pr.terminate.Sound where
  exclusive locked := by cases locked
  deletes := by simp [Process.terminate]
  searching _ main := by cases main
  waiting main := by cases main
  greeting _ main := by cases main
  notItself follows := by cases follows
  notToItself := List.not_mem_nil

theorem Sound.heartBeat {pr : Process} (sound : pr.Sound) (p : PeerId) :
    (pr.heartBeat p).Sound :=
  sound.of_quiet rfl rfl rfl rfl rfl rfl

theorem Sound.tick {pr : Process} (sound : pr.Sound) (order : List PeerId) :
    (pr.tick order).Sound := by
  unfold Process.tick
  dsimp only
  split
  · unfold handlePeerFailure
    split
    · obtain ⟨exclusive, deletes, searching, waiting, greeting, notItself, notToItself⟩ := sound
      refine ⟨fun _ => rfl, ?_, searching, waiting, greeting, notItself, notToItself⟩
      intro operation call change deletion
      cases call
      cases deletion
      rfl
    · split
      · exact sound.of_quiet rfl rfl rfl rfl rfl rfl
      · exact sound.of_quiet rfl rfl rfl rfl rfl rfl
  · exact sound.of_quiet rfl rfl rfl rfl rfl rfl

/-! ## Steps of `modifyGroupMembership` -/

/-- A process whose main thread is in `modifyGroupMembership`. -/
theorem Sound.of_main {pr : Process} {operation : Operation}
    (main : pr.main = .addPeer operation ∨ pr.main = .completeRequest operation)
    (exclusive : operation.locked = true → pr.detector.any Operation.locked = false)
    (deletes : ∀ operation ∈ pr.detector, ∀ change ∈ operation.change, change.2 = .DEL) :
    pr.Sound := by
  rcases main with main | main
  · constructor
    · rwa [main]
    · exact deletes
    all_goals simp [main, MainState.follows, MainState.toConnect]
  · constructor
    · rwa [main]
    · exact deletes
    all_goals simp [main, MainState.follows, MainState.toConnect]

/-- What a step of `modifyGroupMembership` does to the data of a sound process. -/
structure Modifies (pr next : Process) (t : Thread) : Prop where
  me : next.me = pr.me
  leaderPeerId : next.service.leaderPeerId = pr.service.leaderPeerId
  tcpClientMap : ∀ p k, next.service.tcpClientMap p = some k →
    pr.service.tcpClientMap p = some k
  alivePeers : t = .detector → ∀ p, p ∈ next.service.alivePeers → p ∈ pr.service.alivePeers
  main : t = .detector → next.main = pr.main
  detector : t = .main → next.detector = pr.detector

theorem Modifies.sound_detector {pr next : Process} (sound : pr.Sound)
    (modifies : pr.Modifies next .detector) {operation : Operation}
    (place : next.detector = some operation)
    (exclusive : operation.locked = true → pr.main.locked = false)
    (deletes : ∀ change ∈ operation.change, change.2 = .DEL) : next.Sound := by
  have main := modifies.main rfl
  have none : ∀ p, pr.service.tcpClientMap p = none → next.service.tcpClientMap p = none := by
    intro p missing
    by_contra found
    obtain ⟨k, found⟩ := Option.ne_none_iff_exists'.mp found
    rw [modifies.tcpClientMap p k found] at missing
    cases missing
  constructor
  · intro locked
    rw [main] at locked
    rw [place, Option.any_some, Bool.eq_false_iff]
    intro detectorLocked
    rw [exclusive detectorLocked] at locked
    cases locked
  · intro operation' here
    rw [place] at here
    cases here
    exact deletes
  · intro rest here p
    rw [main] at here
    exact none p (sound.searching rest here p)
  · intro here p
    rw [main] at here
    exact none p (sound.waiting here p)
  · intro k here k' found
    rw [main] at here
    rw [modifies.leaderPeerId] at found
    exact sound.greeting k here k' (modifies.tcpClientMap _ _ found)
  · intro follows mem
    rw [main] at follows
    rw [modifies.me] at mem
    exact sound.notItself follows (modifies.alivePeers rfl _ mem)
  · rw [main, modifies.me]
    exact sound.notToItself

/-- A step of either thread to another place in `modifyGroupMembership`. -/
theorem Sound.setOperation {pr data : Process} {t : Thread} {operation next : Operation}
    (sound : pr.Sound) (place : pr.operation t = some operation)
    (modifies : pr.Modifies data t) (sameMain : data.main = pr.main)
    (sameDetector : data.detector = pr.detector)
    (exclusive : next.locked = true → operation.locked = true ∨ pr.lockTaken t = false)
    (changes : ∀ change ∈ next.change, operation.change = some change) :
    (data.setOperation next t).Sound := by
  rcases operation_cases place with ⟨rfl, main⟩ | ⟨rfl, main⟩ | ⟨rfl, detector⟩
  · rw [setOperation_addPeer (sameMain.trans main)]
    refine Sound.of_main (Or.inl rfl) (fun locked => ?_) ?_
    · rcases exclusive locked with before | free
      · rw [sameDetector]
        exact sound.exclusive (by rw [main]; exact before)
      · rw [sameDetector]
        exact free
    · rw [sameDetector]
      exact sound.deletes
  · rw [setOperation_completeRequest (sameMain.trans main)]
    refine Sound.of_main (Or.inr rfl) (fun locked => ?_) ?_
    · rcases exclusive locked with before | free
      · rw [sameDetector]
        exact sound.exclusive (by rw [main]; exact before)
      · rw [sameDetector]
        exact free
    · rw [sameDetector]
      exact sound.deletes
  · obtain ⟨me, leaderPeerId, tcpClientMap, alivePeers, _, _⟩ := modifies
    refine Modifies.sound_detector sound ⟨me, leaderPeerId, tcpClientMap, alivePeers,
      fun _ => sameMain, fun same => by cases same⟩ rfl (fun locked => ?_) ?_
    · rcases exclusive locked with before | free
      · by_contra mainLocked
        have apart := sound.exclusive (Bool.not_eq_false _ ▸ mainLocked)
        rw [detector, Option.any_some, before] at apart
        cases apart
      · exact free
    · intro change next
      exact sound.deletes operation detector change (changes change next)

/-- Steps that leave the data alone. -/
theorem Modifies.refl {pr : Process} {t : Thread} : pr.Modifies pr t :=
  ⟨rfl, rfl, fun _ _ found => found, fun _ _ mem => mem, fun _ => rfl, fun _ => rfl⟩

theorem Modifies.beginOperation {pr : Process} {t : Thread} (m : RequestMsg) :
    pr.Modifies (pr.beginOperation m) t := by
  refine ⟨rfl, ?_, ?_, ?_, fun _ => rfl, fun _ => rfl⟩
  · unfold Process.beginOperation beginModification
    dsimp only
    split <;> rfl
  · intro p k
    unfold Process.beginOperation beginModification
    dsimp only
    split
    · dsimp only
      rw [Function.update_apply]
      split
      · intro found
        cases found
      · exact id
    · exact id
  · intro _ p
    unfold Process.beginOperation beginModification
    dsimp only
    split
    · intro mem
      exact (OrderedSet.mem_erase.mp mem).1
    · exact id

theorem Modifies.endOperation {pr : Process} {t : Thread} {m : RequestMsg}
    (deletes : t = .detector → m.operationType = .DEL) :
    pr.Modifies (pr.endOperation m) t := by
  refine ⟨rfl, rfl, fun _ _ found => found, ?_, fun _ => rfl, fun _ => rfl⟩
  intro detector p mem
  unfold Process.endOperation install endModification at mem
  dsimp only at mem
  rwa [deletes detector, if_neg (by decide)] at mem

/-- The process after `modifyGroupMembership`. -/
theorem Sound.finishOperation {pr : Process} {t : Thread} {operation : Operation}
    (sound : pr.Sound) (place : pr.operation t = some operation) :
    (pr.finishOperation t).Sound := by
  rcases operation_cases place with ⟨rfl, main⟩ | ⟨rfl, main⟩ | ⟨rfl, detector⟩
  · rw [finishOperation_addPeer main]
    constructor
    · intro locked
      cases locked
    · exact sound.deletes
    all_goals simp [MainState.follows, MainState.toConnect]
  · rw [finishOperation_completeRequest main]
    constructor
    · intro locked
      cases locked
    · exact sound.deletes
    all_goals simp [MainState.follows, MainState.toConnect]
  · obtain ⟨_, _, searching, waiting, greeting, notItself, notToItself⟩ := sound
    exact ⟨fun _ => rfl, by simp [Process.finishOperation], searching, waiting, greeting,
      notItself, notToItself⟩

/-! ## Steps of the main thread -/

/-- A step to a place of a follower that is past `findLeader` and not just reconnecting. -/
theorem Sound.of_following {pr next : Process} (sound : pr.Sound)
    (place : next.main = .startAsFollower ∨ next.main = .sendOkMsg ∨
      next.main = .waitForLeaderCrash ∨ next.main = .handleLeaderCrash ∨
      next.main = .sendPendingRequestMsg)
    (detector : next.detector = pr.detector) (notItself : next.me ∉ next.service.alivePeers) :
    next.Sound := by
  have deletes := sound.deletes
  rw [← detector] at deletes
  rcases place with main | main | main | main | main
  all_goals
    constructor
    · intro locked
      rw [main] at locked
      cases locked
    · exact deletes
    · intro rest here
      rw [main] at here
      cases here
    · intro here
      rw [main] at here
      cases here
    · intro k here
      rw [main] at here
      cases here
    · intro _
      exact notItself
    · rw [main]
      exact List.not_mem_nil

/-- A step on in `findLeader`. -/
theorem Sound.findLeader {pr : Process} {peerId : PeerId} {rest : List PeerId} (sound : pr.Sound)
    (place : pr.main = .findLeader (peerId :: rest)) :
    Sound { pr with main := .findLeader rest } := by
  constructor
  · intro locked
    cases locked
  · exact sound.deletes
  · intro _ _
    exact sound.searching _ place
  · intro main
    cases main
  · intro _ main
    cases main
  · intro _
    exact sound.notItself (by rw [place]; rfl)
  · exact List.not_mem_nil

theorem Sound.handleLeaderCrash {pr : Process} (sound : pr.Sound)
    (place : pr.main = .handleLeaderCrash) (idle : pr.detector = none) :
    pr.handleLeaderCrash.Sound := by
  have notIn : pr.me ∉ pr.service.alivePeers := sound.notItself (by rw [place]; rfl)
  unfold Process.handleLeaderCrash
  dsimp only
  split
  · constructor
    · intro _
      dsimp only
      rw [idle]
      rfl
    · exact sound.deletes
    · intro _ main
      cases main
    · intro main
      cases main
    · intro _ main
      cases main
    · intro follows
      cases follows
    · intro mem
      exact notIn (OrderedSet.mem_erase.mp mem).1
  · constructor
    · intro locked
      cases locked
    · exact sound.deletes
    · intro _ main
      cases main
    · intro _ _
      rfl
    · intro _ main
      cases main
    · intro _
      exact notIn
    · exact List.not_mem_nil

theorem Sound.followerReceives {pr : Process} (sound : pr.Sound)
    (place : pr.main = .startAsFollower) (m : Msg) : (pr.followerReceives m).Sound := by
  cases m with
  | request m =>
      have notIn := sound.notItself (by rw [place]; rfl)
      exact sound.of_following (Or.inr (Or.inl rfl)) rfl notIn
  | newView m =>
      obtain ⟨exclusive, deletes, searching, waiting, greeting, _, notToItself⟩ := sound
      refine ⟨exclusive, deletes, searching, waiting, greeting, fun _ mem => ?_, notToItself⟩
      exact (OrderedSet.mem_erase.mp mem).2 rfl
  | ok m => exact Sound.terminate
  | newLeader m => exact Sound.terminate

/-- A step between places that hold no lock, look for no leader and follow none. -/
theorem Sound.of_main_state {pr next : Process} (sound : pr.Sound)
    (detector : next.detector = pr.detector)
    (exclusive : next.main.locked = true → pr.main.locked = true)
    (follows : next.main.follows = false) (notToItself : next.me ∉ next.main.toConnect) :
    next.Sound := by
  constructor
  · intro locked
    rw [detector]
    exact sound.exclusive (exclusive locked)
  · rw [detector]
    exact sound.deletes
  · intro rest main
    rw [main] at follows
    cases follows
  · intro main
    rw [main] at follows
    cases follows
  · intro k main
    rw [main] at follows
    cases follows
  · intro isTrue
    rw [follows] at isTrue
    cases isTrue
  · exact notToItself

end Process

open Process

/-- **Local soundness** is kept by every step of a thread. -/
theorem ThreadStep.sound {pr next : Process} {t : Thread} {label : Label}
    (step : ThreadStep pr t label next) (sound : pr.Sound) : next.Sound := by
  have deletes : ∀ {m : RequestMsg} {operation : Operation},
      pr.operation t = some operation → operation.change = some (m.peerId, m.operationType) →
        t = .detector → m.operationType = .DEL := by
    rintro m operation place change rfl
    exact sound.deletes operation place _ change
  cases step with
  | dies fatal => exact Sound.terminate
  | call place =>
      refine sound.setOperation place ⟨rfl, rfl, fun _ _ found => found, fun _ _ mem => mem,
        fun _ => rfl, fun _ => rfl⟩ rfl rfl ?_ ?_
      · intro locked
        cases locked
      · intro change same
        exact same
  | lock place free =>
      refine sound.setOperation place (.beginOperation _) rfl rfl ?_ ?_
      · intro _
        exact Or.inr free
      · intro change same
        exact same
  | sendRequestMsg place found =>
      refine sound.setOperation place .refl rfl rfl ?_ ?_
      · intro _
        exact Or.inl rfl
      · intro change same
        exact same
  | requestsSent place =>
      refine sound.setOperation place .refl rfl rfl ?_ ?_
      · intro _
        exact Or.inl rfl
      · intro change same
        exact same
  | waitForOkMsg place found expected =>
      refine sound.setOperation place .refl rfl rfl ?_ ?_
      · intro _
        exact Or.inl rfl
      · intro change same
        exact same
  | newView place =>
      refine sound.setOperation place (.endOperation (deletes place rfl)) rfl rfl ?_ ?_
      · intro locked
        cases locked
      · intro change none
        cases none
  | printNewlyInstalledView place free =>
      refine sound.setOperation place .refl rfl rfl ?_ ?_
      · intro locked
        cases locked
      · intro change none
        cases none
  | sendNewViewMsg place =>
      refine sound.setOperation place .refl rfl rfl ?_ ?_
      · intro locked
        cases locked
      · intro change none
        cases none
  | lockView place free =>
      refine sound.setOperation place .refl rfl rfl ?_ ?_
      · intro _
        exact Or.inr free
      · intro change none
        cases none
  | deliver place found =>
      refine sound.setOperation place .refl rfl rfl ?_ ?_
      · intro _
        exact Or.inl rfl
      · intro change none
        cases none
  | delivered place => exact sound.finishOperation place
  | skipMyself place =>
      exact sound.findLeader place
  | leaderFound place other =>
      have notIn := sound.notItself (by rw [place]; rfl)
      exact sound.of_following (Or.inl rfl) rfl notIn
  | noLeaderThere place other =>
      exact sound.findLeader place
  | noLeaderFound place =>
      exact sound.of_main_state rfl (fun locked => nomatch locked) rfl List.not_mem_nil
  | startAsLeader place free =>
      exact sound.of_main_state rfl (fun locked => nomatch locked) rfl List.not_mem_nil
  | accept place =>
      exact sound.of_main_state rfl (fun locked => nomatch locked) rfl List.not_mem_nil
  | followerReceives place found free => exact sound.followerReceives place _
  | leaderLost place found =>
      have notIn := sound.notItself (by rw [place]; rfl)
      exact sound.of_following (Or.inr (Or.inr (Or.inl rfl))) rfl notIn
  | sendOkMsg place found =>
      have notIn := sound.notItself (by rw [place]; rfl)
      exact sound.of_following (Or.inl rfl) rfl notIn
  | okMsgFailed place found =>
      have notIn := sound.notItself (by rw [place]; rfl)
      exact sound.of_following (Or.inr (Or.inr (Or.inl rfl))) rfl notIn
  | waitForLeaderCrash place crashed =>
      have notIn := sound.notItself (by rw [place]; rfl)
      exact sound.of_following (Or.inr (Or.inr (Or.inr (Or.inl rfl)))) rfl notIn
  | handleLeaderCrash place idle => exact sound.handleLeaderCrash place idle
  | reconnect place =>
      refine sound.of_main_state rfl (fun _ => by rw [place]; rfl) rfl ?_
      have notIn := sound.notToItself
      rw [place] at notIn
      exact fun mem => notIn (List.mem_cons_of_mem _ mem)
  | unreachable place =>
      refine sound.of_main_state rfl (fun _ => by rw [place]; rfl) rfl ?_
      have notIn := sound.notToItself
      rw [place] at notIn
      exact fun mem => notIn (List.mem_cons_of_mem _ mem)
  | reconnected place =>
      exact sound.of_main_state rfl (fun _ => by rw [place]; rfl) rfl List.not_mem_nil
  | introduce place =>
      refine sound.of_main_state rfl (fun _ => by rw [place]; rfl) rfl ?_
      have notIn := sound.notToItself
      rwa [place] at notIn
  | introduceFailed place =>
      refine sound.of_main_state rfl (fun _ => by rw [place]; rfl) rfl ?_
      have notIn := sound.notToItself
      rwa [place] at notIn
  | pendingRequest place found =>
      exact sound.of_main_state rfl (fun _ => by rw [place]; rfl) rfl List.not_mem_nil
  | notConnected place missing =>
      exact sound.of_main_state rfl (fun _ => by rw [place]; rfl) rfl List.not_mem_nil
  | completeRequest place pending =>
      exact sound.of_main_state rfl (fun locked => nomatch locked) rfl List.not_mem_nil
  | nothingPending place nothing =>
      exact sound.of_main_state rfl (fun locked => nomatch locked) rfl List.not_mem_nil
  | waitForNewLeaderMsg place =>
      rename_i leaderClient leaderPeerId
      constructor
      · intro locked
        cases locked
      · exact sound.deletes
      · intro _ main
        cases main
      · intro main
        cases main
      · intro k main k' found
        cases main
        unfold insertClient at found
        dsimp only at found
        rw [Function.update_self, sound.waiting place leaderPeerId] at found
        cases found
        rfl
      · intro _
        exact sound.notItself (by rw [place]; rfl)
      · exact List.not_mem_nil
  | greet place =>
      have notIn := sound.notItself (by rw [place]; rfl)
      exact sound.of_following (Or.inr (Or.inr (Or.inr (Or.inr rfl)))) rfl notIn
  | sendPendingRequestMsg place found =>
      have notIn := sound.notItself (by rw [place]; rfl)
      exact sound.of_following (Or.inl rfl) rfl notIn

/-! ## Sockets -/

/-- The process has a connection to peer `p`. -/
def Process.Holds (pr : Process) (p : PeerId) (k : Socket) : Prop :=
  pr.service.tcpClientMap p = some k ∨
    ∃ m rest tempAlivePeers, pr.main = .introduce m p k rest tempAlivePeers

/-- A step with no new data for `tcpClientMap` and no new place in a takeover. -/
theorem Process.Holds.back {pr next : Process} {p : PeerId} {k : Socket} (holds : next.Holds p k)
    (tcpClientMap : ∀ p k, next.service.tcpClientMap p = some k →
      pr.service.tcpClientMap p = some k)
    (main : next.main = pr.main ∨ ∀ m peer client rest tempAlivePeers,
      next.main ≠ .introduce m peer client rest tempAlivePeers) : pr.Holds p k := by
  rcases holds with found | ⟨m, rest, tempAlivePeers, place⟩
  · exact Or.inl (tcpClientMap p k found)
  · rcases main with same | none
    · exact Or.inr ⟨m, rest, tempAlivePeers, same ▸ place⟩
    · exact (none _ _ _ _ _ place).elim

theorem Process.Holds.back_setOperation {pr data : Process} {t : Thread}
    {operation next : Operation} {p : PeerId} {k : Socket}
    (holds : (data.setOperation next t).Holds p k) (place : pr.operation t = some operation)
    (tcpClientMap : ∀ p k, data.service.tcpClientMap p = some k →
      pr.service.tcpClientMap p = some k) (sameMain : data.main = pr.main) : pr.Holds p k := by
  refine holds.back ?_ ?_
  · rw [service_setOperation]
    exact tcpClientMap
  · rcases operation_cases place with ⟨rfl, main⟩ | ⟨rfl, main⟩ | ⟨rfl, _⟩
    · rw [setOperation_addPeer (sameMain.trans main)]
      exact Or.inr fun _ _ _ _ _ same => nomatch same
    · rw [setOperation_completeRequest (sameMain.trans main)]
      exact Or.inr fun _ _ _ _ _ same => nomatch same
    · exact Or.inl sameMain

theorem Process.Holds.back_finishOperation {pr : Process} {t : Thread} {operation : Operation}
    {p : PeerId} {k : Socket} (holds : (pr.finishOperation t).Holds p k)
    (place : pr.operation t = some operation) : pr.Holds p k := by
  obtain ⟨leaderPeerId, service⟩ := service_finishOperation pr t
  refine holds.back ?_ ?_
  · rw [service]
    exact fun _ _ found => found
  · rcases operation_cases place with ⟨rfl, main⟩ | ⟨rfl, main⟩ | ⟨rfl, _⟩
    · rw [finishOperation_addPeer main]
      exact Or.inr fun _ _ _ _ _ same => nomatch same
    · rw [finishOperation_completeRequest main]
      exact Or.inr fun _ _ _ _ _ same => nomatch same
    · exact Or.inl rfl

/-- A step of the main thread that leaves `tcpClientMap` alone. -/
theorem Process.Holds.back_main {pr next : Process} {p : PeerId} {k : Socket}
    (holds : next.Holds p k) (same : next.service.tcpClientMap = pr.service.tcpClientMap)
    (main : ∀ m peer client rest tempAlivePeers,
      next.main ≠ .introduce m peer client rest tempAlivePeers) : pr.Holds p k :=
  holds.back (fun _ _ found => same ▸ found) (Or.inr main)

/-- Where connections come from. -/
theorem ThreadStep.holds {pr next : Process} {t : Thread} {label : Label}
    (step : ThreadStep pr t label next) {p : PeerId} {k : Socket} (holds : next.Holds p k) :
    pr.Holds p k ∨ label = .connected p k ∨ ∃ close, label = .accepted close k p := by
  cases step with
  | dies _ => exact Or.inl (holds.back_main rfl fun _ _ _ _ _ same => nomatch same)
  | call place => exact Or.inl (holds.back_setOperation place (fun _ _ found => found) rfl)
  | lock place _ =>
      have modifies : ∀ m, pr.Modifies (pr.beginOperation m) t := Modifies.beginOperation
      exact Or.inl (holds.back_setOperation place (modifies _).tcpClientMap rfl)
  | sendRequestMsg place _ =>
      exact Or.inl (holds.back_setOperation place (fun _ _ found => found) rfl)
  | requestsSent place =>
      exact Or.inl (holds.back_setOperation place (fun _ _ found => found) rfl)
  | waitForOkMsg place _ _ =>
      exact Or.inl (holds.back_setOperation place (fun _ _ found => found) rfl)
  | newView place => exact Or.inl (holds.back_setOperation place (fun _ _ found => found) rfl)
  | printNewlyInstalledView place _ =>
      exact Or.inl (holds.back_setOperation place (fun _ _ found => found) rfl)
  | sendNewViewMsg place =>
      exact Or.inl (holds.back_setOperation place (fun _ _ found => found) rfl)
  | lockView place _ => exact Or.inl (holds.back_setOperation place (fun _ _ found => found) rfl)
  | deliver place _ => exact Or.inl (holds.back_setOperation place (fun _ _ found => found) rfl)
  | delivered place => exact Or.inl (holds.back_finishOperation place)
  | skipMyself _ => exact Or.inl (holds.back_main rfl fun _ _ _ _ _ same => nomatch same)
  | leaderFound place other =>
      rcases holds with found | ⟨_, _, _, main⟩
      · rcases insertClient_cases found with old | ⟨rfl, rfl⟩
        · exact Or.inl (Or.inl old)
        · exact Or.inr (Or.inl rfl)
      · cases main
  | noLeaderThere _ _ => exact Or.inl (holds.back_main rfl fun _ _ _ _ _ same => nomatch same)
  | noLeaderFound _ => exact Or.inl (holds.back_main rfl fun _ _ _ _ _ same => nomatch same)
  | startAsLeader _ _ => exact Or.inl (holds.back_main rfl fun _ _ _ _ _ same => nomatch same)
  | accept place =>
      rcases holds with found | ⟨_, _, _, main⟩
      · rcases insertClient_cases found with old | ⟨rfl, rfl⟩
        · exact Or.inl (Or.inl old)
        · exact Or.inr (Or.inr ⟨false, rfl⟩)
      · cases main
  | @followerReceives client m place _ _ =>
      cases m with
      | request m => exact Or.inl (holds.back_main rfl fun _ _ _ _ _ same => nomatch same)
      | newView m => exact Or.inl (holds.back (fun _ _ found => found) (Or.inl rfl))
      | ok m => exact Or.inl (holds.back_main rfl fun _ _ _ _ _ same => nomatch same)
      | newLeader m => exact Or.inl (holds.back_main rfl fun _ _ _ _ _ same => nomatch same)
  | leaderLost _ _ => exact Or.inl (holds.back_main rfl fun _ _ _ _ _ same => nomatch same)
  | sendOkMsg _ _ => exact Or.inl (holds.back_main rfl fun _ _ _ _ _ same => nomatch same)
  | okMsgFailed _ _ => exact Or.inl (holds.back_main rfl fun _ _ _ _ _ same => nomatch same)
  | waitForLeaderCrash _ _ => exact Or.inl (holds.back_main rfl fun _ _ _ _ _ same => nomatch same)
  | handleLeaderCrash place _ =>
      unfold Process.handleLeaderCrash at holds
      dsimp only at holds
      split at holds
      · rcases holds with found | ⟨_, _, _, main⟩
        · cases found
        · cases main
      · rcases holds with found | ⟨_, _, _, main⟩
        · cases found
        · cases main
  | reconnect place =>
      rcases holds with found | ⟨_, _, _, main⟩
      · exact Or.inl (Or.inl found)
      · cases main
        exact Or.inr (Or.inl rfl)
  | unreachable _ => exact Or.inl (holds.back_main rfl fun _ _ _ _ _ same => nomatch same)
  | reconnected _ => exact Or.inl (holds.back_main rfl fun _ _ _ _ _ same => nomatch same)
  | introduce place =>
      rcases holds with found | ⟨_, _, _, main⟩
      · rcases insertClient_cases found with old | ⟨rfl, rfl⟩
        · exact Or.inl (Or.inl old)
        · exact Or.inl (Or.inr ⟨_, _, _, place⟩)
      · cases main
  | introduceFailed _ => exact Or.inl (holds.back_main rfl fun _ _ _ _ _ same => nomatch same)
  | pendingRequest _ _ => exact Or.inl (holds.back_main rfl fun _ _ _ _ _ same => nomatch same)
  | notConnected _ _ => exact Or.inl (holds.back_main rfl fun _ _ _ _ _ same => nomatch same)
  | completeRequest _ _ => exact Or.inl (holds.back_main rfl fun _ _ _ _ _ same => nomatch same)
  | nothingPending _ _ => exact Or.inl (holds.back_main rfl fun _ _ _ _ _ same => nomatch same)
  | waitForNewLeaderMsg place =>
      rcases holds with found | ⟨_, _, _, main⟩
      · rcases insertClient_cases found with old | ⟨rfl, rfl⟩
        · exact Or.inl (Or.inl old)
        · exact Or.inr (Or.inr ⟨true, rfl⟩)
      · cases main
  | greet _ => exact Or.inl (holds.back_main rfl fun _ _ _ _ _ same => nomatch same)
  | sendPendingRequestMsg _ _ =>
      exact Or.inl (holds.back_main rfl fun _ _ _ _ _ same => nomatch same)

end GroupComm.Lab2
