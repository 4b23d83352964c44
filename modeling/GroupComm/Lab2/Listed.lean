import GroupComm.Lab2.Wiring

/-!
# Where identifiers come from

Every identifier that a process takes for a member is that of a host in the hostfile
(`listed_of_reach`): it is the process's own, that of a connection it has accepted, or
one from a message.

* A request to delete says nothing about its peer, and the dummy request has none; so
  `Msg.Listed` is about requests to add, and about views.
-/

namespace GroupComm.Lab2

open Transition

variable {H : PeerId → Prop}

/-- The members that a message tells of are listed. -/
def Msg.Listed (H : PeerId → Prop) : Msg → Prop
  | .request m => m.operationType = .ADD → H m.peerId
  | .newView m => ∀ p ∈ m.members, H p
  | _ => True

def Operation.Listed (H : PeerId → Prop) : Operation → Prop
  | .call peerId operationType => operationType = .ADD → H peerId
  | .lock m => (Msg.request m).Listed H
  | .sendRequestMsg m _ => (Msg.request m).Listed H
  | .waitForOkMsg m _ => (Msg.request m).Listed H
  | .deliver m _ => (Msg.newView m).Listed H
  | _ => True

def MainState.Listed (H : PeerId → Prop) : MainState → Prop
  | .addPeer operation => operation.Listed H
  | .sendNewLeaderMsg _ rest tempAlivePeers => (∀ p ∈ rest, H p) ∧ ∀ p ∈ tempAlivePeers, H p
  | .introduce _ peer _ rest tempAlivePeers =>
      H peer ∧ (∀ p ∈ rest, H p) ∧ ∀ p ∈ tempAlivePeers, H p
  | .waitForPendingRequestMsg _ m => (Msg.request m).Listed H
  | .completeRequest operation => operation.Listed H
  | _ => True

namespace Process

structure Listed (H : PeerId → Prop) (pr : Process) : Prop where
  me : H pr.me
  alivePeers : ∀ p ∈ pr.service.alivePeers, H p
  pendingRequest : (Msg.request pr.service.pendingRequest).Listed H
  main : pr.main.Listed H
  detector : ∀ operation ∈ pr.detector, operation.Listed H

variable {pr : Process}

theorem Listed.fresh {p : PeerId} (listed : H p) (hosts : List PeerId) :
    Listed H { me := p, main := .findLeader hosts } :=
  ⟨listed, fun q mem => absurd mem (OrderedSet.notMem_empty q), nofun, trivial,
    nofun⟩

/-- The group of a process is listed. -/
theorem Listed.members (listed : pr.Listed H) : ∀ p ∈ pr.service.getGroupMembers pr.me, H p := by
  intro p mem
  rcases OrderedSet.mem_insert.mp mem with rfl | mem
  · exact listed.me
  · exact listed.alivePeers p mem

theorem Listed.place (listed : pr.Listed H) {t : Thread} {operation : Operation}
    (place : pr.operation t = some operation) : operation.Listed H := by
  rcases operation_cases place with ⟨_, main⟩ | ⟨_, main⟩ | ⟨_, detector⟩
  · have here := listed.main
    rwa [main] at here
  · have here := listed.main
    rwa [main] at here
  · exact listed.detector operation detector

theorem Listed.setOperation (listed : pr.Listed H) {operation : Operation}
    (next : operation.Listed H) (t : Thread) : (pr.setOperation operation t).Listed H := by
  unfold Process.setOperation
  split
  · split
    · exact ⟨listed.me, listed.alivePeers, listed.pendingRequest, next, listed.detector⟩
    · exact ⟨listed.me, listed.alivePeers, listed.pendingRequest, next, listed.detector⟩
  · refine ⟨listed.me, listed.alivePeers, listed.pendingRequest, listed.main, ?_⟩
    rintro _ ⟨⟩
    exact next

/-- The operation goes on with the same request or view. -/
theorem Listed.goOn (listed : pr.Listed H) {t : Thread} {operation next : Operation}
    (place : pr.operation t = some operation) (same : next.Listed H = operation.Listed H) :
    (pr.setOperation next t).Listed H := by
  have here := listed.place place
  rw [← same] at here
  exact listed.setOperation here t

theorem Listed.finishOperation (listed : pr.Listed H) (t : Thread) :
    (pr.finishOperation t).Listed H := by
  unfold Process.finishOperation
  split
  · split
    · exact ⟨listed.me, listed.alivePeers, listed.pendingRequest, trivial, listed.detector⟩
    · exact ⟨listed.me, listed.alivePeers, listed.pendingRequest, trivial, listed.detector⟩
  · exact ⟨listed.me, listed.alivePeers, listed.pendingRequest, listed.main,
      nofun⟩

theorem Listed.beginOperation (listed : pr.Listed H) (m : RequestMsg) :
    (pr.beginOperation m).Listed H := by
  unfold Process.beginOperation MembershipService.beginModification
  refine ⟨listed.me, ?_, ?_, listed.main, listed.detector⟩
  · dsimp only
    split
    · exact fun p mem => listed.alivePeers p (OrderedSet.mem_erase.mp mem).1
    · exact listed.alivePeers
  · dsimp only
    split
    · exact listed.pendingRequest
    · exact listed.pendingRequest

theorem Listed.endOperation (listed : pr.Listed H) {m : RequestMsg}
    (adds : (Msg.request m).Listed H) : (pr.endOperation m).Listed H := by
  refine ⟨listed.me, fun p mem => ?_, listed.pendingRequest, listed.main, listed.detector⟩
  change p ∈ if m.operationType = .ADD then pr.service.alivePeers.insert m.peerId
    else pr.service.alivePeers at mem
  split at mem
  · rename_i addition
    rcases OrderedSet.mem_insert.mp mem with rfl | mem
    · exact adds addition
    · exact listed.alivePeers p mem
  · exact listed.alivePeers p mem

/-- The main thread goes elsewhere. -/
theorem Listed.withMain (listed : pr.Listed H) {main : MainState} (next : main.Listed H) :
    Listed H { pr with main := main } :=
  ⟨listed.me, listed.alivePeers, listed.pendingRequest, next, listed.detector⟩

theorem Listed.terminate (listed : pr.Listed H) : pr.terminate.Listed H :=
  ⟨listed.me, listed.alivePeers, listed.pendingRequest, trivial, nofun⟩

theorem Listed.heartBeat (listed : pr.Listed H) (p : PeerId) : (pr.heartBeat p).Listed H :=
  ⟨listed.me, listed.alivePeers, listed.pendingRequest, listed.main, listed.detector⟩

theorem Listed.tick (listed : pr.Listed H) (order : List PeerId) : (pr.tick order).Listed H := by
  obtain ⟨me, alivePeers, pendingRequest, main, detector⟩ := listed
  unfold Process.tick
  dsimp only
  split
  · unfold Process.handlePeerFailure
    split
    · refine ⟨me, alivePeers, pendingRequest, main, ?_⟩
      rintro _ ⟨⟩ adds
      cases adds
    · split
      · exact ⟨me, alivePeers, pendingRequest, main, detector⟩
      · exact ⟨me, alivePeers, pendingRequest, main, detector⟩
  · exact ⟨me, alivePeers, pendingRequest, main, detector⟩

theorem Listed.handleLeaderCrash (listed : pr.Listed H) : pr.handleLeaderCrash.Listed H := by
  obtain ⟨me, alivePeers, pendingRequest, _, detector⟩ := listed
  have others : ∀ p ∈ pr.service.alivePeers.erase pr.service.leaderPeerId, H p := fun p mem =>
    alivePeers p (OrderedSet.mem_erase.mp mem).1
  unfold Process.handleLeaderCrash
  dsimp only
  split
  · exact ⟨me, others, pendingRequest,
      ⟨others, fun p mem => absurd mem (OrderedSet.notMem_empty p)⟩, detector⟩
  · exact ⟨me, alivePeers, pendingRequest, trivial, detector⟩

theorem Listed.followerReceives (listed : pr.Listed H) {m : Msg} (received : m.Listed H) :
    (pr.followerReceives m).Listed H := by
  cases m with
  | request m => exact ⟨listed.me, listed.alivePeers, received, trivial, listed.detector⟩
  | newView m =>
      refine ⟨listed.me, fun p mem => ?_, nofun, listed.main, listed.detector⟩
      exact received p (OrderedSet.mem_ofList.mp (OrderedSet.mem_erase.mp mem).1)
  | ok m => exact listed.terminate
  | newLeader m => exact listed.terminate

end Process

/-- What comes in with a step is listed. -/
def Label.Listed (H : PeerId → Prop) : Label → Prop
  | .received _ m => m.Listed H
  | .accepted _ _ peer => H peer
  | _ => True

/-- **One step** takes members from nowhere else, and tells of no others. -/
theorem ThreadStep.listed {pr next : Process} {t : Thread} {label : Label}
    (step : ThreadStep pr t label next) (listed : pr.Listed H) (incoming : label.Listed H) :
    next.Listed H := by
  cases step with
  | dies _ => exact listed.terminate
  | @call t peerId operationType place =>
      have adds : operationType = .ADD → H peerId := listed.place place
      have counted : Process.Listed H { pr with service := pr.service.countRequest } :=
        ⟨listed.me, listed.alivePeers, listed.pendingRequest, listed.main, listed.detector⟩
      exact counted.setOperation (by exact adds) t
  | @lock t m place _ =>
      have adds : (Msg.request m).Listed H := listed.place place
      exact (listed.beginOperation m).setOperation (by exact adds) t
  | sendRequestMsg place _ => exact listed.goOn place (by rfl)
  | requestsSent place => exact listed.goOn place (by rfl)
  | waitForOkMsg place _ _ => exact listed.goOn place (by rfl)
  | newView place => exact (listed.endOperation (listed.place place)).setOperation (by exact trivial) _
  | printNewlyInstalledView place _ => exact listed.setOperation (by exact trivial) _
  | sendNewViewMsg place => exact listed.setOperation (by exact trivial) _
  | lockView place _ => exact listed.setOperation (by exact listed.members) _
  | deliver place _ => exact listed.goOn place (by rfl)
  | delivered place => exact listed.finishOperation _
  | skipMyself _ => exact listed.withMain trivial
  | leaderFound _ _ =>
      exact ⟨listed.me, listed.alivePeers, listed.pendingRequest, trivial, listed.detector⟩
  | noLeaderThere _ _ => exact listed.withMain trivial
  | noLeaderFound _ =>
      exact ⟨listed.me, listed.alivePeers, listed.pendingRequest, trivial, listed.detector⟩
  | startAsLeader _ _ =>
      exact ⟨listed.me, listed.alivePeers, listed.pendingRequest, trivial, listed.detector⟩
  | accept _ =>
      exact ⟨listed.me, listed.alivePeers, listed.pendingRequest, fun _ => incoming,
        listed.detector⟩
  | followerReceives _ _ _ => exact listed.followerReceives incoming
  | leaderLost _ _ => exact listed.withMain trivial
  | sendOkMsg _ _ => exact listed.withMain trivial
  | okMsgFailed _ _ => exact listed.withMain trivial
  | waitForLeaderCrash _ _ =>
      exact ⟨listed.me, listed.alivePeers, listed.pendingRequest, trivial, listed.detector⟩
  | handleLeaderCrash _ _ => exact listed.handleLeaderCrash
  | reconnect place =>
      have here := listed.main
      rw [place] at here
      exact listed.withMain ⟨here.1 _ List.mem_cons_self,
        fun p mem => here.1 p (List.mem_cons_of_mem _ mem), here.2⟩
  | unreachable place =>
      have here := listed.main
      rw [place] at here
      exact listed.withMain ⟨fun p mem => here.1 p (List.mem_cons_of_mem _ mem), here.2⟩
  | reconnected place =>
      have here := listed.main
      rw [place] at here
      exact ⟨listed.me, here.2, listed.pendingRequest, nofun, listed.detector⟩
  | introduce place =>
      have here := listed.main
      rw [place] at here
      refine ⟨listed.me, listed.alivePeers, listed.pendingRequest, ⟨here.2.1, ?_⟩,
        listed.detector⟩
      intro p mem
      rcases OrderedSet.mem_insert.mp mem with rfl | mem
      · exact here.1
      · exact here.2.2 p mem
  | introduceFailed place =>
      have here := listed.main
      rw [place] at here
      exact listed.withMain here.2
  | pendingRequest place _ =>
      have here := listed.main
      rw [place] at here
      refine listed.withMain ?_
      change (Msg.request (if _ then _ else _)).Listed H
      split
      · exact incoming
      · exact here
  | notConnected place _ =>
      have here := listed.main
      rw [place] at here
      exact listed.withMain here
  | completeRequest place _ =>
      have here := listed.main
      rw [place] at here
      exact listed.withMain here
  | nothingPending _ _ =>
      exact ⟨listed.me, listed.alivePeers, listed.pendingRequest, trivial, listed.detector⟩
  | waitForNewLeaderMsg _ =>
      exact ⟨listed.me, listed.alivePeers, listed.pendingRequest, trivial, listed.detector⟩
  | greet _ => exact listed.withMain trivial
  | sendPendingRequestMsg _ _ => exact listed.withMain trivial

theorem ThreadStep.sends_listed {pr next : Process} {t : Thread} {k : Socket} {m : Msg}
    (step : ThreadStep pr t (.sent k m) next) (listed : pr.Listed H) : m.Listed H := by
  cases step with
  | dies fatal => exact fatal.elim
  | sendRequestMsg place _ => exact listed.place place
  | deliver place _ => exact listed.place place
  | sendOkMsg _ _ => trivial
  | introduce _ => trivial
  | sendPendingRequestMsg _ _ => exact listed.pendingRequest

/-! ## The system -/

/-- All processes and all messages on the way are listed. -/
structure World.Listed (hosts : List PeerId) (s : World) : Prop where
  processes : ∀ i < s.started, (s.processes i).Listed (· ∈ hosts)
  inbox : ∀ k, ∀ m ∈ s.inbox k, m.Listed (· ∈ hosts)

namespace World.Listed

variable {hosts : List PeerId} {s s' : World}

/-- One process has changed, and messages from it are on the way. -/
theorem of_update (listed : s.Listed hosts) {i : ProcId} {next : Process}
    (changed : next.Listed (· ∈ hosts))
    (processes : s'.processes = Function.update s.processes i next)
    (started : ∀ j < s'.started, j = i ∨ j < s.started)
    (inbox : ∀ k, ∀ m ∈ s'.inbox k, m ∈ s.inbox k ∨ m.Listed (· ∈ hosts)) : s'.Listed hosts := by
  refine ⟨fun j less => ?_, fun k m mem => ?_⟩
  · rw [processes, Function.update_apply]
    split
    · exact changed
    · rename_i other
      rcases started j less with same | old
      · exact (other same).elim
      · exact listed.processes j old
  · rcases inbox k m mem with old | new
    · exact listed.inbox k m old
    · exact new

theorem step (listed : s.Listed hosts) (wired : Wired s) {e : Event}
    (h : WorldStep hosts s e s') : s'.Listed hosts := by
  have kept {i : ProcId} (running : (s.processes i).running = true) :
      (s.processes i).Listed (· ∈ hosts) := listed.processes i (wired.started i running)
  cases h with
  | start isHost down =>
      refine listed.of_update (.fresh isHost hosts) rfl (fun j less => ?_) fun _ _ mem => Or.inl mem
      exact (Nat.lt_succ_iff_lt_or_eq.mp less).symm
  | crash running =>
      exact listed.of_update (kept running).terminate rfl (fun _ => Or.inr) fun _ _ => Or.inl
  | heartBeat running idle other =>
      exact listed.of_update ((kept running).heartBeat _) rfl (fun _ => Or.inr) fun _ _ => Or.inl
  | tick running idle all =>
      exact listed.of_update ((kept running).tick _) rfl (fun _ => Or.inr) fun _ _ => Or.inl
  | silent running step =>
      exact listed.of_update (step.listed (kept running) trivial) rfl (fun _ => Or.inr)
        fun _ _ => Or.inl
  | @sent i t client m next running step =>
      refine listed.of_update (step.listed (kept running) trivial) rfl (fun _ => Or.inr) ?_
      intro k m' mem
      change m' ∈ Function.update s.inbox client.peer (s.inbox client.peer ++ [m]) k at mem
      rw [Function.update_apply] at mem
      split at mem
      · rename_i same
        subst same
        rcases List.mem_append.mp mem with old | new
        · exact Or.inl old
        · rw [List.mem_singleton] at new
          subst new
          exact Or.inr (step.sends_listed (kept running))
      · exact Or.inl mem
  | failed running ended step =>
      exact listed.of_update (step.listed (kept running) trivial) rfl (fun _ => Or.inr)
        fun _ _ => Or.inl
  | @received i t client m rest next running head step =>
      have incoming : m.Listed (· ∈ hosts) :=
        listed.inbox client m (by rw [head]; exact List.mem_cons_self)
      refine listed.of_update (step.listed (kept running) incoming) rfl (fun _ => Or.inr) ?_
      intro k m' mem
      change m' ∈ Function.update s.inbox client rest k at mem
      rw [Function.update_apply] at mem
      split at mem
      · rename_i same
        subst same
        rw [head]
        exact Or.inl (List.mem_cons_of_mem _ mem)
      · exact Or.inl mem
  | lost running empty ended step =>
      exact listed.of_update (step.listed (kept running) trivial) rfl (fun _ => Or.inr)
        fun _ _ => Or.inl
  | @connected i t peer j next running known listens step =>
      refine listed.of_update (step.listed (kept running) trivial) rfl (fun _ => Or.inr) ?_
      intro k m' mem
      change m' ∈ Function.update (Function.update s.inbox s.nextSocket []) s.nextSocket.peer [] k
        at mem
      rw [Function.update_apply, Function.update_apply] at mem
      split at mem
      · cases mem
      · split at mem
        · cases mem
        · exact Or.inl mem
  | refused running deaf step =>
      exact listed.of_update (step.listed (kept running) trivial) rfl (fun _ => Or.inr)
        fun _ _ => Or.inl
  | @accepted i t close client rest next running head step =>
      obtain ⟨less, _⟩ := wired.waiting i client (by rw [head]; exact List.mem_cons_self)
      have connector := (listed.processes _ (wired.owners client.peer less)).me
      exact listed.of_update (step.listed (kept running) connector) rfl (fun _ => Or.inr)
        fun _ _ => Or.inl

end World.Listed

/-- **Members are hosts.**  In every reachable world. -/
theorem listed_of_reach {hosts : List PeerId} {s : World}
    (reach : Reach (World.step hosts) Always {} s) : s.Listed hosts := by
  refine reach.invariant_with (P := fun s => s.Listed hosts)
    (fun _ before => wired_of_reachable before) ?_ ?_
  · exact ⟨fun _ less => absurd less (Nat.not_lt_zero _), fun _ _ mem => nomatch mem⟩
  · intro s e s' wired listed _ taken
    exact listed.step wired (worldStep_of_step taken)

end GroupComm.Lab2
