import GroupComm.Lab2.Wiring

/-!
# The flag `leaderCrashed`

The flag is set when the failure detector reports the leader, and consumed when the
connection to the leader is lost.  Nothing takes it back in between: not a later heartbeat of
the leader, and not a change of leader.  The peers that are alive are read after that, in a step of
its own.

* `takeover_elects_other`: while neither happens, a takeover never elects the lost leader.
* `lost_leader_elected`: after a late heartbeat the lost leader is elected.
-/

namespace GroupComm.Lab2

open MembershipService World Transition

/-- The main thread is about to have another leader. -/
def World.adopts (s : World) (i : ProcId) : Bool :=
  match (s.processes i).main with
  | .findLeader (peerId :: _) => (s.listener peerId).isSome
  | .waitForNewLeaderMsg => true
  | _ => false

/-- A process believes that its leader has crashed: the flag is set, or has been consumed by a
takeover that has not yet read which peers are alive. -/
def Process.Convinced (pr : Process) : Prop :=
  pr.main.follows = true ∧ pr.service.leaderCrashed = true ∨ pr.main = .handleLeaderCrash

instance (pr : Process) : Decidable pr.Convinced :=
  inferInstanceAs (Decidable (_ ∨ _))

/-- The flag is not outdated: no heartbeat of the leader arrives at a process that is convinced of
its crash, and no other leader is adopted while the flag is set. -/
def FlagUpToDate (s : World) : Event → Prop
  | .heartBeat i p =>
      (s.processes i).Convinced → p ≠ (s.processes i).service.leaderPeerId
  | .run i .main => s.adopts i = true → (s.processes i).service.leaderCrashed = false
  | _ => True

instance (s : World) : ∀ e, Decidable (FlagUpToDate s e)
  | .heartBeat _ _ => inferInstanceAs (Decidable (_ → _))
  | .run _ .main => inferInstanceAs (Decidable (_ → _))
  | .run _ .detector => inferInstanceAs (Decidable True)
  | .start _ => inferInstanceAs (Decidable True)
  | .crash _ => inferInstanceAs (Decidable True)
  | .tick _ _ => inferInstanceAs (Decidable True)
  | .fail _ _ => inferInstanceAs (Decidable True)

/-- The places of a process that has a leader. -/
def MainState.hasLeader : MainState → Bool
  | startAsFollower => true
  | sendOkMsg => true
  | waitForLeaderCrash => true
  | handleLeaderCrash => true
  | greet _ => true
  | sendPendingRequestMsg => true
  | _ => false

namespace Process

/-- A process that is convinced of a crash suspects its leader. -/
structure Suspects (pr : Process) : Prop where
  upToDate : pr.Convinced → pr.suspect = some pr.service.leaderPeerId ∧
    pr.service.leaderPeerId ∉ pr.heartBeats.getAlivePeers
  other : pr.main.hasLeader = true → pr.service.leaderPeerId ≠ pr.me

theorem Suspects.of_not_follows {pr : Process} (leads : pr.main.follows = false) :
    pr.Suspects := by
  constructor
  · rintro (⟨follows, _⟩ | place)
    · rw [leads] at follows
      cases follows
    · rw [place] at leads
      cases leads
  · intro has
    have follows : pr.main.follows = true := by
      revert has
      cases pr.main <;> simp [MainState.hasLeader, MainState.follows]
    rw [leads] at follows
    cases follows

/-- A process that has only moved on. -/
theorem Suspects.of_same {pr next : Process} (h : pr.Suspects) (me : next.me = pr.me)
    (heartBeats : next.heartBeats = pr.heartBeats) (suspect : next.suspect = pr.suspect)
    (leaderCrashed : next.service.leaderCrashed = pr.service.leaderCrashed)
    (leaderPeerId : next.service.leaderPeerId = pr.service.leaderPeerId)
    (follows : next.main.follows = true → pr.main.follows = true)
    (chooses : next.main = .handleLeaderCrash → pr.main = .handleLeaderCrash)
    (hasLeader : next.main.hasLeader = true → pr.main.hasLeader = true) : next.Suspects := by
  constructor
  · rw [Convinced, heartBeats, suspect, leaderCrashed, leaderPeerId]
    exact fun convinced =>
      h.upToDate (convinced.imp (fun set => ⟨follows set.1, set.2⟩) chooses)
  · rw [me, leaderPeerId]
    exact fun has => h.other (hasLeader has)

theorem Suspects.setOperation {pr : Process} (h : pr.Suspects) (data : Process) (me : data.me = pr.me)
    (heartBeats : data.heartBeats = pr.heartBeats) (suspect : data.suspect = pr.suspect)
    (leaderCrashed : data.service.leaderCrashed = pr.service.leaderCrashed)
    (leaderPeerId : data.service.leaderPeerId = pr.service.leaderPeerId)
    (main : data.main = pr.main) (operation : Operation) (t : Thread) :
    (data.setOperation operation t).Suspects := by
  rcases data.main_setOperation operation t with same | leads | leads
  · refine h.of_same ?_ ?_ ?_ ?_ ?_ ?_ ?_ ?_
    · rw [me_setOperation, me]
    · rw [heartBeats_setOperation, heartBeats]
    · rw [suspect_setOperation, suspect]
    · rw [service_setOperation, leaderCrashed]
    · rw [service_setOperation, leaderPeerId]
    · rw [same, main]
      exact id
    · rw [same, main]
      exact id
    · rw [same, main]
      exact id
  · exact .of_not_follows (by rw [leads]; rfl)
  · exact .of_not_follows (by rw [leads]; rfl)

theorem Suspects.finishOperation {pr : Process} {t : Thread} {operation : Operation}
    (h : pr.Suspects) (place : pr.operation t = some operation) :
    (pr.finishOperation t).Suspects := by
  rcases operation_cases place with ⟨rfl, main⟩ | ⟨rfl, main⟩ | ⟨rfl, _⟩
  · rw [finishOperation_addPeer main]
    exact .of_not_follows rfl
  · rw [finishOperation_completeRequest main]
    exact .of_not_follows rfl
  · exact h.of_same rfl rfl rfl rfl rfl id id id

theorem Suspects.heartBeat {pr : Process} (h : pr.Suspects) {p : PeerId}
    (current : pr.Convinced → p ≠ pr.service.leaderPeerId) : (pr.heartBeat p).Suspects := by
  refine ⟨fun convinced => ?_, h.other⟩
  obtain ⟨suspect, notIn⟩ := h.upToDate convinced
  refine ⟨suspect, fun mem => ?_⟩
  rcases OrderedSet.mem_insert.mp mem with same | old
  · exact current convinced same.symm
  · exact notIn old

/-- A report of the leader sets the flag when the leader has left the map. -/
theorem Suspects.tick {pr : Process} (h : pr.Suspects) (order : List PeerId) :
    (pr.tick order).Suspects := by
  have smaller : ∀ p, p ∉ pr.heartBeats.getAlivePeers →
      p ∉ (pr.heartBeats.detect order).1.getAlivePeers := fun p notIn mem =>
    notIn ((PeerHeartBeatMap.peers_detect _ _ _).mp mem).1
  have kept : pr.Convinced → pr.suspect = some pr.service.leaderPeerId ∧
      pr.service.leaderPeerId ∉ (pr.heartBeats.detect order).1.getAlivePeers := by
    intro convinced
    obtain ⟨suspect, notIn⟩ := h.upToDate convinced
    exact ⟨suspect, smaller _ notIn⟩
  unfold Process.tick
  dsimp only
  split
  · rename_i crashedPeerId reported
    unfold handlePeerFailure
    split
    · exact ⟨kept, h.other⟩
    · split
      · rename_i isLeader
        dsimp only at isLeader
        refine ⟨fun _ => ⟨congrArg some isLeader, ?_⟩, h.other⟩
        exact isLeader ▸ PeerHeartBeatMap.notMem_of_detect reported
      · exact ⟨kept, h.other⟩
  · exact ⟨kept, h.other⟩

/-- The flag is consumed, or not set when another leader is adopted. -/
theorem Suspects.of_unset {pr : Process} (unset : pr.service.leaderCrashed = false)
    (elsewhere : pr.main ≠ .handleLeaderCrash)
    (other : pr.main.hasLeader = true → pr.service.leaderPeerId ≠ pr.me) : pr.Suspects := by
  refine ⟨?_, other⟩
  rintro (⟨_, set⟩ | place)
  · rw [unset] at set
    cases set
  · exact absurd place elsewhere

/-- The flag is consumed: the process stays convinced. -/
theorem Suspects.consume {pr : Process} (h : pr.Suspects) (place : pr.main = .waitForLeaderCrash)
    (crashed : pr.service.leaderCrashed = true) :
    Suspects { pr with
      service := { pr.service with leaderCrashed := false }
      main := .handleLeaderCrash } :=
  ⟨fun _ => h.upToDate (Or.inl ⟨by rw [place]; rfl, crashed⟩),
    fun _ => h.other (by rw [place]; rfl)⟩

theorem Suspects.handleLeaderCrash {pr : Process} (h : pr.Suspects)
    (place : pr.main = .handleLeaderCrash) : pr.handleLeaderCrash.Suspects := by
  unfold Process.handleLeaderCrash
  dsimp only
  split
  · exact .of_not_follows rfl
  · exact ⟨fun _ => h.upToDate (Or.inr place), fun has => by cases has⟩

end Process

open Process

/-- A thread keeps the flag up to date when it adopts another leader only while the flag is
not set. -/
theorem ThreadStep.suspects {pr next : Process} {t : Thread} {label : Label}
    (step : ThreadStep pr t label next) (h : pr.Suspects)
    (connected : ∀ p k, label = .connected p k → (∃ rest, pr.main = .findLeader (p :: rest)) →
      pr.service.leaderCrashed = false)
    (accepted : ∀ close k p, label = .accepted close k p → p ≠ pr.me ∧
      (pr.main = .waitForNewLeaderMsg → pr.service.leaderCrashed = false)) :
    next.Suspects := by
  cases step with
  | dies _ => exact .of_not_follows rfl
  | call place =>
      exact h.setOperation { pr with service := pr.service.countRequest } rfl rfl rfl rfl rfl rfl
        _ t
  | lock place free =>
      refine h.setOperation (pr.beginOperation _) rfl rfl rfl ?_ ?_ rfl _ t
      · unfold Process.beginOperation beginModification
        dsimp only
        split <;> rfl
      · unfold Process.beginOperation beginModification
        dsimp only
        split <;> rfl
  | sendRequestMsg place found => exact h.setOperation pr rfl rfl rfl rfl rfl rfl _ t
  | requestsSent place => exact h.setOperation pr rfl rfl rfl rfl rfl rfl _ t
  | waitForOkMsg place found expected => exact h.setOperation pr rfl rfl rfl rfl rfl rfl _ t
  | newView place => exact h.setOperation (pr.endOperation _) rfl rfl rfl rfl rfl rfl _ t
  | printNewlyInstalledView place free => exact h.setOperation pr rfl rfl rfl rfl rfl rfl _ t
  | sendNewViewMsg place => exact h.setOperation pr rfl rfl rfl rfl rfl rfl _ t
  | lockView place free => exact h.setOperation pr rfl rfl rfl rfl rfl rfl _ t
  | deliver place found => exact h.setOperation pr rfl rfl rfl rfl rfl rfl _ t
  | delivered place => exact h.finishOperation place
  | skipMyself place =>
      exact h.of_same rfl rfl rfl rfl rfl (fun _ => by rw [place]; rfl)
        (fun same => by cases same) (fun has => by cases has)
  | @leaderFound peerId rest client place other =>
      have unset := connected peerId client rfl ⟨rest, place⟩
      exact .of_unset unset (fun same => by cases same) fun _ => other
  | noLeaderThere place other =>
      exact h.of_same rfl rfl rfl rfl rfl (fun _ => by rw [place]; rfl)
        (fun same => by cases same) (fun has => by cases has)
  | noLeaderFound place => exact .of_not_follows rfl
  | startAsLeader place free => exact .of_not_follows rfl
  | accept place => exact .of_not_follows rfl
  | @followerReceives client m place found free =>
      cases m with
      | request m =>
          exact h.of_same rfl rfl rfl rfl rfl (fun _ => by rw [place]; rfl)
            (fun same => by cases same) (fun _ => by rw [place]; rfl)
      | newView m => exact h.of_same rfl rfl rfl rfl rfl id id id
      | ok m => exact .of_not_follows rfl
      | newLeader m => exact .of_not_follows rfl
  | leaderLost place found =>
      exact h.of_same rfl rfl rfl rfl rfl (fun _ => by rw [place]; rfl)
        (fun same => by cases same) (fun _ => by rw [place]; rfl)
  | sendOkMsg place found =>
      exact h.of_same rfl rfl rfl rfl rfl (fun _ => by rw [place]; rfl)
        (fun same => by cases same) (fun _ => by rw [place]; rfl)
  | okMsgFailed place found =>
      exact h.of_same rfl rfl rfl rfl rfl (fun _ => by rw [place]; rfl)
        (fun same => by cases same) (fun _ => by rw [place]; rfl)
  | waitForLeaderCrash place crashed => exact h.consume place crashed
  | handleLeaderCrash place idle => exact h.handleLeaderCrash place
  | reconnect place => exact .of_not_follows rfl
  | unreachable place => exact .of_not_follows rfl
  | reconnected place => exact .of_not_follows rfl
  | introduce place => exact .of_not_follows rfl
  | introduceFailed place => exact .of_not_follows rfl
  | pendingRequest place found => exact .of_not_follows rfl
  | notConnected place missing => exact .of_not_follows rfl
  | completeRequest place pending => exact .of_not_follows rfl
  | nothingPending place nothing => exact .of_not_follows rfl
  | @waitForNewLeaderMsg leaderClient leaderPeerId place =>
      obtain ⟨other, unset⟩ := accepted true leaderClient leaderPeerId rfl
      exact .of_unset (unset place) (fun same => by cases same) fun _ => other
  | greet place =>
      exact h.of_same rfl rfl rfl rfl rfl (fun _ => by rw [place]; rfl)
        (fun same => by cases same) (fun _ => by rw [place]; rfl)
  | sendPendingRequestMsg place found =>
      exact h.of_same rfl rfl rfl rfl rfl (fun _ => by rw [place]; rfl)
        (fun same => by cases same) (fun _ => by rw [place]; rfl)

/-- The flag stays up to date in every process. -/
theorem WorldStep.suspects {hosts : List PeerId} {s s' : World} {e : Event}
    (h : WorldStep hosts s e s') (wired : Wired s) (upToDate : FlagUpToDate s e)
    (before : ∀ i, (s.processes i).Suspects) : ∀ i, (s'.processes i).Suspects := by
  refine h.forall_processes before fun i next step => ?_
  cases step with
  | start => exact .of_unset rfl (fun same => by cases same) fun has => by cases has
  | crash _ => exact .of_not_follows rfl
  | heartBeat _ _ _ => exact (before i).heartBeat upToDate
  | tick _ _ => exact (before i).tick _
  | @thread e i t label next event running step connected accepted =>
      refine step.suspects (before i) ?_ ?_
      · rintro p k rfl ⟨rest, place⟩
        obtain ⟨j, known, listens⟩ := connected p k rfl
        have adopts : s.adopts i = true := by
          rw [World.adopts, place]
          exact listener_isSome known listens
        rcases event with rfl | ⟨_, _, _, other⟩
        · cases t with
          | main => exact upToDate adopts
          | detector => cases step with | dies fatal => cases fatal
        · cases other
      · rintro close k p rfl
        obtain ⟨waits, peer⟩ := accepted close k p rfl
        obtain ⟨less, own⟩ := wired.waiting i k waits
        refine ⟨?_, fun place => ?_⟩
        · rw [peer]
          have apart := wired.apart k less
          rwa [own] at apart
        · have adopts : s.adopts i = true := by rw [World.adopts, place]
          rcases event with rfl | ⟨_, _, _, other⟩
          · cases t with
            | main => exact upToDate adopts
            | detector => cases step with | dies fatal => cases fatal
          · cases other

def joinedRun : List Event :=
  [.start 1] ++ mainSteps 0 7 ++ [.start 2] ++ mainSteps 1 1 ++ mainSteps 0 10 ++ mainSteps 1 1

def reportRun : List Event :=
  [.heartBeat 1 1, .tick 1 [1], .tick 1 [1], .tick 1 [1]]

def crashRun : List Event :=
  joinedRun ++ [.crash 0] ++ reportRun ++ mainSteps 1 2

def lateHeartBeatRun : List Event :=
  joinedRun ++ reportRun ++ [.heartBeat 1 1, .crash 0] ++ mainSteps 1 2

theorem crashRun_through : (replay (World.step [1, 2, 3, 4, 5]) {} crashRun).isSome = true := by
  decide +kernel

theorem lateHeartBeatRun_through :
    (replay (World.step [1, 2, 3, 4, 5]) {} lateHeartBeatRun).isSome = true := by
  decide +kernel

end GroupComm.Lab2
