import GroupComm.Lab2.Balance
import GroupComm.Lab2.Leading

/-!
# What the followers will hold

Leaders add and delete peers one after another, stop at some point, and are followed by others.
The followers lag behind; what a process holds once it has processed everything that its leader
has sent to it is its `outlook`.

* `OneLeader` says which runs these are; `PassesNobody` that whoever comes to lead is followed by
  every process that still holds a request.
* `World.Takes` is a step of a thread together with what the network makes of it.
* `Process.Attends` says what a step of a follower does to what it reads and holds; no such step
  changes an outlook (`World.Takes.keepsOutlook`).
-/

namespace GroupComm.Lab2

open MembershipService World Transition Process

/-! ## What a process will hold -/

/-- The request that a process holds, and the identifier of its view. -/
structure Held where
  pendingRequest : RequestMsg
  viewId : ViewId
  deriving DecidableEq

/-- What is held after a message of the leader. -/
def Held.absorb (held : Held) : Msg → Held
  | .request m => { held with pendingRequest := m }
  | .newView m => ⟨getDummyPendingRequestMsg, m.newViewId⟩
  | .ok _ => held
  | .newLeader _ => held

def MembershipService.held {Client : Type} (s : MembershipService Client) : Held :=
  ⟨s.pendingRequest, s.viewId⟩

/-- The places at which a process follows its leader. -/
def MainState.reads : MainState → Bool
  | startAsFollower => true
  | sendOkMsg => true
  | _ => false

/-- The connection from which a follower reads. -/
def Process.leaderClient (pr : Process) : Option Socket :=
  if pr.main.reads then pr.service.tcpClientMap pr.service.leaderPeerId else none

/-- What the leader has sent to a process and it has not processed. -/
def Process.unread (pr : Process) (inbox : Socket → List Msg) : List Msg :=
  pr.leaderClient.elim [] inbox

/-- What a process holds once it has processed everything that has been sent to it. -/
def Process.outlook (pr : Process) (inbox : Socket → List Msg) : Held :=
  (pr.unread inbox).foldl Held.absorb pr.service.held

def World.outlook (s : World) (i : ProcId) : Held :=
  (s.processes i).outlook s.inbox

/-- Process `i` follows somebody, and will hold a request. -/
def World.holdsRequest (s : World) (i : ProcId) : Bool :=
  (s.processes i).main.follows && decide ((s.outlook i).pendingRequest ≠ getDummyPendingRequestMsg)

/-- One peer of the loop of `waitForPendingRequestMsg`, with what has arrived from it. -/
def World.hear (s : World) (i : ProcId) (pendingRequestMsg : RequestMsg) (peer : PeerId) :
    RequestMsg :=
  match ((s.processes i).service.tcpClientMap peer).elim [] s.inbox with
  | .request requestMsg :: _ =>
      if requestMsg.operationType ≠ .NOTHING then requestMsg else pendingRequestMsg
  | _ => pendingRequestMsg

/-- What the rest of the loop makes of the answers that have arrived, with the peers in this
order. -/
def World.scan (s : World) (i : ProcId) (order : List PeerId) (pendingRequestMsg : RequestMsg) :
    RequestMsg :=
  order.foldl (s.hear i) pendingRequestMsg

/-! ## The runs with one leader at a time -/

/-- The places of a process that leads or takes over. -/
def MainState.commands : MainState → Bool
  | startAsLeader => true
  | accept => true
  | addPeer _ => true
  | sendNewLeaderMsg _ _ _ => true
  | introduce _ _ _ _ _ => true
  | waitForPendingRequestMsg _ _ => true
  | completeRequest _ => true
  | _ => false

/-- No process but `i` leads or takes over. -/
def World.Unled (s : World) (i : ProcId) : Prop :=
  ∀ j ∈ List.range s.started, j ≠ i → (s.processes j).main.commands = false

/-- Process `j` reads from a connection that process `i` has to one of its live peers. -/
def World.FollowedBy (s : World) (i j : ProcId) : Prop :=
  ∃ p ∈ (s.processes i).service.alivePeers.toList,
    ((s.processes i).service.tcpClientMap p).map Socket.peer = (s.processes j).leaderClient ∧
      (s.processes j).leaderClient ≠ none

/-- Every process that holds a request follows process `i`. -/
def World.Reaches (s : World) (i : ProcId) : Prop :=
  ∀ j ∈ List.range s.started, s.holdsRequest j = true → j = i ∨ s.FollowedBy i j

/-- What the main thread of process `i` may do at a place: one process leads at a time, and one
change is handled at a time. -/
def World.Permits (s : World) (i : ProcId) : MainState → Prop
  | .findLeader [] => s.Unled i
  | .accept => (s.processes i).detector = none
  | .handleLeaderCrash => nextLeader (s.processes i).me (s.processes i).heartBeats.getAlivePeers =
      (s.processes i).me → s.Unled i
  | _ => True

/-- One process leads at a time, and handles one change at a time; a follower notices that its
leader is gone only when it has processed everything. -/
def OneLeader (s : World) : Event → Prop
  | .tick i order => (s.processes i).startsDeletion order = true →
      (s.processes i).main.serves = true ∧ (s.processes i).operation .main = none
  | .run i .main => s.Permits i (s.processes i).main
  | .fail i .main => (s.processes i).main = .sendOkMsg → (s.processes i).unread s.inbox = []
  | _ => True

/-- Where the main thread of a process is about to lead. -/
def MainState.prevails : MainState → Bool
  | findLeader [] => true
  | waitForPendingRequestMsg [] _ => true
  | _ => false

/-- Nobody comes to lead past a process that holds a request. -/
def PassesNobody (s : World) : Event → Prop
  | .run i .main => (s.processes i).main.prevails = true → s.Reaches i
  | _ => True

/-- The runs in which leaders follow one another. -/
def InSuccession (s : World) (e : Event) : Prop :=
  OneLeader s e ∧ PassesNobody s e

/-- The request that the main thread is about to complete. -/
def MainState.completing : MainState → Option RequestMsg
  | waitForPendingRequestMsg [] pendingRequestMsg => some pendingRequestMsg
  | _ => none

/-- No takeover finds a request to complete. -/
def CompletesNothing (s : World) : Event → Prop
  | .run i .main => ∀ m ∈ (s.processes i).main.completing, m.operationType = .NOTHING
  | _ => True

instance decidableUnled (s : World) (i : ProcId) : Decidable (s.Unled i) :=
  inferInstanceAs (Decidable (∀ j ∈ List.range s.started, _))

instance decidableFollowedBy (s : World) (i j : ProcId) : Decidable (s.FollowedBy i j) :=
  inferInstanceAs (Decidable (∃ p ∈ (s.processes i).service.alivePeers.toList, _))

instance decidableReaches (s : World) (i : ProcId) : Decidable (s.Reaches i) :=
  inferInstanceAs (Decidable (∀ j ∈ List.range s.started, _))

instance decidablePermits (s : World) (i : ProcId) : DecidablePred (s.Permits i)
  | .findLeader [] => decidableUnled s i
  | .accept => inferInstanceAs (Decidable (_ = _))
  | .handleLeaderCrash => inferInstanceAs (Decidable (_ → _))
  | .findLeader (_ :: _) | .startAsLeader | .addPeer _ | .startAsFollower | .sendOkMsg
  | .waitForLeaderCrash | .sendNewLeaderMsg _ _ _ | .introduce _ _ _ _ _
  | .waitForPendingRequestMsg _ _ | .completeRequest _ | .waitForNewLeaderMsg | .greet _
  | .sendPendingRequestMsg | .stopped => .isTrue trivial

instance decidableOneLeader (s : World) : DecidablePred (OneLeader s)
  | .tick _ _ => inferInstanceAs (Decidable (_ → _ ∧ _))
  | .run i .main => decidablePermits s i _
  | .fail _ .main => inferInstanceAs (Decidable (_ → _ = _))
  | .start _ | .crash _ | .heartBeat _ _ | .run _ .detector | .fail _ .detector => .isTrue trivial

instance decidablePassesNobody (s : World) : DecidablePred (PassesNobody s)
  | .run _ .main => inferInstanceAs (Decidable (_ → _))
  | .start _ | .crash _ | .heartBeat _ _ | .tick _ _ | .run _ .detector | .fail _ _ =>
      .isTrue trivial

instance decidableCompletesNothing (s : World) : DecidablePred (CompletesNothing s)
  | .run _ .main => inferInstanceAs (Decidable (∀ m ∈ _, _))
  | .start _ | .crash _ | .heartBeat _ _ | .tick _ _ | .run _ .detector | .fail _ _ =>
      .isTrue trivial

/-- The process that takes part in an event; a start makes a new one. -/
def Event.actor : Event → Option ProcId
  | .start _ => none
  | .crash i => some i
  | .heartBeat i _ => some i
  | .tick i _ => some i
  | .run i _ => some i
  | .fail i _ => some i

/-! ## The places of a process -/

theorem MainState.follows_or_stopped {place : MainState} (obeys : place.commands = false) :
    place.follows = true ∨ place = .stopped := by
  cases place
  case stopped => exact Or.inr rfl
  case startAsLeader => cases obeys
  case accept => cases obeys
  case addPeer => cases obeys
  case sendNewLeaderMsg => cases obeys
  case introduce => cases obeys
  case waitForPendingRequestMsg => cases obeys
  case completeRequest => cases obeys
  all_goals exact Or.inl rfl

theorem MainState.commands_of_follows {place : MainState} (follows : place.follows = true) :
    place.commands = false := by
  revert follows
  cases place <;> simp [MainState.follows, MainState.commands]

theorem MainState.commands_of_rules {place : MainState} (rules : place.rules = true) :
    place.commands = true := by
  revert rules
  cases place <;> simp [MainState.rules, MainState.commands]

theorem MainState.commands_of_serves {place : MainState} (serves : place.serves = true) :
    place.commands = true :=
  commands_of_rules (rules_of_serves serves)

theorem MainState.follows_of_reads {place : MainState} (reads : place.reads = true) :
    place.follows = true := by
  revert reads
  cases place <;> simp [MainState.follows, MainState.reads]

theorem MainState.running_of_commands {pr : Process} (commands : pr.main.commands = true) :
    pr.running = true := by
  apply decide_eq_true
  intro stopped
  rw [stopped] at commands
  cases commands

theorem MainState.running_of_follows {pr : Process} (follows : pr.main.follows = true) :
    pr.running = true := by
  apply decide_eq_true
  intro stopped
  rw [stopped] at follows
  cases follows

theorem World.holdsRequest_iff {s : World} {i : ProcId} : s.holdsRequest i = true ↔
    (s.processes i).main.follows = true ∧
      (s.outlook i).pendingRequest ≠ getDummyPendingRequestMsg := by
  unfold World.holdsRequest
  rw [Bool.and_eq_true, decide_eq_true_iff]

/-! ## The connection to the leader -/

namespace Process

variable {pr : Process} {k : Socket}

theorem outlook_of_reads (reads : pr.leaderClient = some k) (inbox : Socket → List Msg) :
    pr.outlook inbox = (inbox k).foldl Held.absorb pr.service.held := by
  unfold outlook unread
  rw [reads]
  rfl

theorem outlook_of_none (none : pr.leaderClient = none) (inbox : Socket → List Msg) :
    pr.outlook inbox = pr.service.held := by
  unfold outlook unread
  rw [none]
  rfl

theorem leaderClient_of_reads (reads : pr.main.reads = true) :
    pr.leaderClient = pr.service.tcpClientMap pr.service.leaderPeerId :=
  if_pos reads

theorem leaderClient_of_not_reads (reads : pr.main.reads = false) : pr.leaderClient = none := by
  unfold leaderClient
  rw [reads]
  rfl

/-- The connection to the leader is one of the process. -/
theorem holds_of_leaderClient (found : pr.leaderClient = some k) :
    pr.main.reads = true ∧ pr.Holds pr.service.leaderPeerId k := by
  unfold leaderClient at found
  split at found
  · rename_i reads
    exact ⟨reads, Or.inl found⟩
  · cases found

/-- Whoever reads from a connection is a member there. -/
theorem plays_of_leaderClient (found : pr.leaderClient = some k) :
    ∃ answering, pr.Plays k (.member answering) := by
  unfold leaderClient at found
  split at found
  · rename_i reads
    cases place : pr.main with
    | startAsFollower => exact ⟨_, .follows place found⟩
    | sendOkMsg => exact ⟨_, .answers place found⟩
    | _ =>
        rw [place] at reads
        cases reads
  · cases found

end Process

/-! ## Steps of a thread -/

/-- What is on the way after a step that the network has met in the way of `label`. -/
def Label.passes (inbox : Socket → List Msg) : Label → Socket → List Msg
  | sent client m => Function.update inbox client.peer (inbox client.peer ++ [m])
  | received client _ => Function.update inbox client (inbox client).tail
  | connected _ client => Function.update (Function.update inbox client []) client.peer []
  | _ => inbox

/-- What has to be the case for an effect of process `i` to be met in this way. -/
def Label.Met (s : World) (i : ProcId) : Label → Prop
  | failed client _ => s.ended client.peer = true
  | received client m => s.owner client = i ∧ ∃ rest, s.inbox client = m :: rest
  | lost client => s.inbox client = [] ∧ s.ended client.peer = true
  | connected _ client => client = s.nextSocket
  | _ => True

/-- A thread of process `i` takes a step, or the process crashes. -/
structure World.Takes (s : World) (e : Event) (s' : World) (i : ProcId) (t : Thread)
    (label : Label) (next : Process) : Prop where
  event : (e = .run i t ∧ ∀ k m, label ≠ .failed k m) ∨
    (e = .fail i t ∧ ∃ k m, label = .failed k m) ∨ e = .crash i ∧ t = .detector
  running : (s.processes i).running = true
  step : ThreadStep (s.processes i) t label next
  met : label.Met s i
  processes : s'.processes = Function.update s.processes i next
  inbox : s'.inbox = label.passes s.inbox
  owner : ∀ k : Socket, k.connection < s.opened → s'.owner k = s.owner k
  started : s'.started = s.started

/-- **One process takes part** in an event: with a step of a thread, or its failure detector
learns something. -/
theorem World.takes_of_step {hosts : List PeerId} {s s' : World} {e : Event} {i : ProcId}
    (wired : Wired s) (taken : s.step hosts e = some s') (actor : e.actor = some i) :
    (∃ t label next, s.Takes e s' i t label next) ∨
      ((s.processes i).running = true ∧ (s.processes i).detector = none ∧
        ((∃ p, e = .heartBeat i p ∧ s' = s.setProcess i ((s.processes i).heartBeat p)) ∨
          ∃ order, e = .tick i order ∧ s' = s.setProcess i ((s.processes i).tick order))) := by
  cases worldStep_of_step taken with
  | start => cases actor
  | crash running =>
      cases actor
      exact Or.inl ⟨.detector, .silent [], _, Or.inr (Or.inr ⟨rfl, rfl⟩), running, .dies rfl,
        trivial, rfl, rfl, fun _ _ => rfl, rfl⟩
  | heartBeat running idle _ =>
      cases actor
      exact Or.inr ⟨running, idle, Or.inl ⟨_, rfl, rfl⟩⟩
  | tick running idle _ =>
      cases actor
      exact Or.inr ⟨running, idle, Or.inr ⟨_, rfl, rfl⟩⟩
  | silent running step =>
      cases actor
      exact Or.inl ⟨_, _, _, Or.inl ⟨rfl, fun _ _ same => by cases same⟩, running, step, trivial,
        rfl, rfl, fun _ _ => rfl, rfl⟩
  | sent running step =>
      cases actor
      exact Or.inl ⟨_, _, _, Or.inl ⟨rfl, fun _ _ same => by cases same⟩, running, step, trivial,
        rfl, rfl, fun _ _ => rfl, rfl⟩
  | failed running ended step =>
      cases actor
      exact Or.inl ⟨_, _, _, Or.inr (Or.inl ⟨rfl, _, _, rfl⟩), running, step, ended, rfl, rfl,
        fun _ _ => rfl, rfl⟩
  | @received _ t client m rest next running head step =>
      cases actor
      refine Or.inl ⟨_, _, _, Or.inl ⟨rfl, fun _ _ same => by cases same⟩, running, step,
        ⟨wired.reads_own taken head (Function.update_self _ _ _), rest, head⟩, rfl, ?_,
        fun _ _ => rfl, rfl⟩
      change _ = Function.update s.inbox client (s.inbox client).tail
      rw [head]
      rfl
  | lost running empty ended step =>
      cases actor
      exact Or.inl ⟨_, _, _, Or.inl ⟨rfl, fun _ _ same => by cases same⟩, running, step,
        ⟨empty, ended⟩, rfl, rfl, fun _ _ => rfl, rfl⟩
  | connected running known listens step =>
      cases actor
      exact Or.inl ⟨_, _, _, Or.inl ⟨rfl, fun _ _ same => by cases same⟩, running, step, rfl, rfl,
        rfl, fun k less => Wired.owner_openConnection less, rfl⟩
  | refused running _ step =>
      cases actor
      exact Or.inl ⟨_, _, _, Or.inl ⟨rfl, fun _ _ same => by cases same⟩, running, step, trivial,
        rfl, rfl, fun _ _ => rfl, rfl⟩
  | accepted running head step =>
      cases actor
      exact Or.inl ⟨_, _, _, Or.inl ⟨rfl, fun _ _ same => by cases same⟩, running, step, trivial,
        rfl, rfl, fun _ _ => rfl, rfl⟩

namespace World.Takes

variable {s s' : World} {e : Event} {i : ProcId} {t : Thread} {label : Label} {next : Process}

theorem process (h : s.Takes e s' i t label next) (j : ProcId) :
    s'.processes j = if j = i then next else s.processes j := by
  rw [h.processes, Function.update_apply]

theorem here (h : s.Takes e s' i t label next) : s'.processes i = next := by
  rw [h.process, if_pos rfl]

theorem other (h : s.Takes e s' i t label next) {j : ProcId} (apart : j ≠ i) :
    s'.processes j = s.processes j := by
  rw [h.process, if_neg apart]

/-- The main thread has run, unless a send fails. -/
theorem runs (h : s.Takes e s' i .main label next) (sound : ∀ k m, label ≠ .failed k m) :
    e = .run i .main := by
  rcases h.event with ⟨run, _⟩ | ⟨_, k, m, failed⟩ | ⟨_, detector⟩
  · exact run
  · exact absurd failed (sound k m)
  · cases detector

theorem permits (h : s.Takes e s' i .main label next) (allowed : OneLeader s e)
    (sound : ∀ k m, label ≠ .failed k m) : s.Permits i (s.processes i).main := by
  cases h.runs sound
  exact allowed

theorem processed (h : s.Takes e s' i .main label next) (allowed : OneLeader s e) {k : Socket}
    {m : Msg} (failed : label = .failed k m) (place : (s.processes i).main = .sendOkMsg) :
    (s.processes i).unread s.inbox = [] := by
  rcases h.event with ⟨_, sound⟩ | ⟨rfl, _⟩ | ⟨rfl, detector⟩
  · exact absurd failed (sound k m)
  · exact allowed place
  · cases detector

/-- What is not sent to a socket, and not read from it, stays. -/
theorem inbox_eq (h : s.Takes e s' i t label next) {k : Socket} (old : k.connection < s.opened)
    (unsent : ∀ client m, label = .sent client m → k ≠ client.peer)
    (unread : ∀ client m, label = .received client m → k ≠ client) : s'.inbox k = s.inbox k := by
  rw [h.inbox]
  cases label with
  | sent client m => exact Function.update_of_ne (unsent client m rfl) _ _
  | received client m => exact Function.update_of_ne (unread client m rfl) _ _
  | connected p client =>
      have same : client = s.nextSocket := h.met
      subst same
      obtain ⟨notNext, notPeer⟩ := Wired.next_ne old
      change Function.update (Function.update s.inbox s.nextSocket []) s.nextSocket.peer [] k = _
      rw [Function.update_of_ne notPeer, Function.update_of_ne notNext]
  | _ => rfl

end World.Takes

/-! ## What a follower reads and holds -/

/-- The messages that a leader does not send. -/
def Msg.neutral : Msg → Bool
  | .ok _ => true
  | .newLeader _ => true
  | _ => false

theorem Held.absorb_neutral {m : Msg} (neutral : m.neutral = true) (held : Held) :
    held.absorb m = held := by
  cases m with
  | ok m => rfl
  | newLeader m => rfl
  | request m => cases neutral
  | newView m => cases neutral

/-- What a step does to what a follower reads and holds. -/
inductive Process.Attends (pr next : Process) : Thread → Label → Prop
  | stays {t label} (client : next.leaderClient = pr.leaderClient)
      (held : next.service.held = pr.service.held)
      (elsewhere : ∀ k m, label = .received k m → pr.leaderClient = none)
      (notConnected : ∀ p k, label ≠ .connected p k)
      (sends : ∀ k m, label = .sent k m → m.neutral = true) : Attends pr next t label
  | reads {t k m} (before : pr.leaderClient = some k) (client : next.leaderClient = some k)
      (held : next.service.held = pr.service.held.absorb m) : Attends pr next t (.received k m)
  | loses {t k} (before : pr.leaderClient = some k) (client : next.leaderClient = none)
      (held : next.service.held = pr.service.held) : Attends pr next t (.lost k)
  | fails {k m} (place : pr.main = .sendOkMsg) (before : pr.leaderClient = some k)
      (client : next.leaderClient = none) (held : next.service.held = pr.service.held) :
    Attends pr next .main (.failed k m)
  | finds {t p k} (before : pr.leaderClient = none) (client : next.leaderClient = some k)
      (held : next.service.held = pr.service.held) : Attends pr next t (.connected p k)
  | answers {t k} (plays : pr.Plays k .answers) (before : pr.leaderClient = none)
      (client : next.leaderClient = some k) (held : next.service.held = pr.service.held) :
    Attends pr next t (.sent k (.request pr.service.createPendingRequestMsg))

/-- The labels of steps that change what is on the way. -/
def Label.exchanges : Label → Bool
  | sent _ _ => true
  | received _ _ => true
  | connected _ _ => true
  | _ => false

/-- Nothing is exchanged, and the same connection is read from. -/
theorem Process.Attends.alone {pr next : Process} {t : Thread} {label : Label}
    (alone : label.exchanges = false) (client : next.leaderClient = pr.leaderClient)
    (held : next.service.held = pr.service.held) : pr.Attends next t label := by
  refine .stays client held (fun k m same => ?_) (fun p k same => ?_) fun k m same => ?_
  all_goals
    rw [same] at alone
    cases alone

/-- A follower is in no operation. -/
theorem Process.operation_of_follows {pr : Process} (follows : pr.main.follows = true)
    (idle : pr.detector = none) (t : Thread) : pr.operation t = none := by
  cases t with
  | main =>
      unfold operation
      cases place : pr.main with
      | addPeer operation =>
          rw [place] at follows
          cases follows
      | completeRequest operation =>
          rw [place] at follows
          cases follows
      | _ => rfl
  | detector => exact idle

/-- **A follower attends to its leader**, as long as it follows. -/
theorem ThreadStep.attends {pr next : Process} {t : Thread} {label : Label}
    (step : ThreadStep pr t label next) (sound : pr.Sound) (follows : pr.main.follows = true)
    (idle : pr.detector = none) (stays : next.main.follows = true) :
    pr.Attends next t label := by
  have outside {t : Thread} {operation : Operation} (here : pr.operation t = some operation) :
      False := by
    rw [operation_of_follows follows idle] at here
    cases here
  have elsewhere {place : MainState} (here : pr.main = place) (other : place.follows = false) :
      False := by
    rw [here, other] at follows
    cases follows
  -- before and after the step nobody is read from
  have unread {place : MainState} (here : pr.main = place) (reads : place.reads = false)
      (reads' : next.main.reads = false) :
      pr.leaderClient = none ∧ next.leaderClient = pr.leaderClient := by
    have before : pr.leaderClient = none := leaderClient_of_not_reads (by rw [here]; exact reads)
    exact ⟨before, (leaderClient_of_not_reads reads').trans before.symm⟩
  cases step with
  | dies _ => cases stays
  | call here => exact (outside here).elim
  | lock here _ => exact (outside here).elim
  | sendRequestMsg here _ => exact (outside here).elim
  | requestsSent here => exact (outside here).elim
  | waitForOkMsg here _ _ => exact (outside here).elim
  | newView here => exact (outside here).elim
  | printNewlyInstalledView here _ => exact (outside here).elim
  | sendNewViewMsg here => exact (outside here).elim
  | lockView here _ => exact (outside here).elim
  | deliver here _ => exact (outside here).elim
  | delivered here => exact (outside here).elim
  | skipMyself here => exact .alone rfl (unread here rfl rfl).2 rfl
  | @leaderFound peerId rest client here other =>
      refine .finds (leaderClient_of_not_reads (by rw [here]; rfl)) ?_ rfl
      have none := sound.searching _ here peerId
      change Function.update pr.service.tcpClientMap peerId _ peerId = _
      rw [Function.update_self, none]
      rfl
  | noLeaderThere here other => exact .alone rfl (unread here rfl rfl).2 rfl
  | noLeaderFound here => cases stays
  | startAsLeader here _ => exact (elsewhere here rfl).elim
  | accept here => exact (elsewhere here rfl).elim
  | @followerReceives k m here found free =>
      have before : pr.leaderClient = some k :=
        (leaderClient_of_reads (by rw [here]; rfl)).trans found
      cases m with
      | request m =>
          exact .reads before (found : (pr.followerReceives (.request m)).leaderClient = some k) rfl
      | newView m =>
          have main : (pr.followerReceives (.newView m)).main = .startAsFollower := here
          exact .reads before ((leaderClient_of_reads (by rw [main]; rfl)).trans found) rfl
      | ok m => cases stays
      | newLeader m => cases stays
  | leaderLost here found =>
      exact .loses ((leaderClient_of_reads (by rw [here]; rfl)).trans found)
        (leaderClient_of_not_reads rfl) rfl
  | sendOkMsg here found =>
      refine .stays ?_ rfl (fun _ _ same => by cases same) (fun _ _ same => by cases same)
        fun _ _ same => by cases same; rfl
      have before : pr.leaderClient = pr.service.tcpClientMap pr.service.leaderPeerId :=
        leaderClient_of_reads (by rw [here]; rfl)
      exact before.symm
  | okMsgFailed here found =>
      exact .fails here ((leaderClient_of_reads (by rw [here]; rfl)).trans found)
        (leaderClient_of_not_reads rfl) rfl
  | waitForLeaderCrash here _ => exact .alone rfl (unread here rfl rfl).2 rfl
  | handleLeaderCrash here _ =>
      obtain ⟨place, held⟩ : pr.handleLeaderCrash.main = .waitForNewLeaderMsg ∧
          pr.handleLeaderCrash.service.held = pr.service.held := by
        unfold Process.handleLeaderCrash at stays ⊢
        dsimp only at stays ⊢
        split
        · rename_i elected
          rw [if_pos elected] at stays
          cases stays
        · exact ⟨rfl, rfl⟩
      exact .alone rfl (unread here rfl (by rw [place]; rfl)).2 held
  | reconnect here => exact (elsewhere here rfl).elim
  | unreachable here => exact (elsewhere here rfl).elim
  | reconnected here => exact (elsewhere here rfl).elim
  | introduce here => exact (elsewhere here rfl).elim
  | introduceFailed here => exact (elsewhere here rfl).elim
  | pendingRequest here _ => exact (elsewhere here rfl).elim
  | notConnected here _ => exact (elsewhere here rfl).elim
  | completeRequest here _ => exact (elsewhere here rfl).elim
  | nothingPending here _ => exact (elsewhere here rfl).elim
  | waitForNewLeaderMsg here => exact .alone rfl (unread here rfl rfl).2 rfl
  | greet here =>
      exact .stays (unread here rfl rfl).2 rfl (fun _ _ _ => (unread here rfl rfl).1)
        (fun _ _ same => by cases same) fun _ _ same => by cases same
  | sendPendingRequestMsg here found =>
      exact .answers (.greeted here found) (leaderClient_of_not_reads (by rw [here]; rfl)) found rfl

/-- What is sent outside `modifyGroupMembership` is of no account to whoever reads it as a member,
or answers a new leader. -/
theorem ThreadStep.sends_neutral {pr next : Process} {t : Thread} {k : Socket} {m : Msg}
    (step : ThreadStep pr t (.sent k m) next) (outside : ∀ t, pr.operation t = none) :
    m.neutral = true ∨ pr.Plays k .answers := by
  cases step with
  | dies fatal => cases fatal
  | sendRequestMsg here _ =>
      rw [outside] at here
      cases here
  | deliver here _ =>
      rw [outside] at here
      cases here
  | sendOkMsg here found => exact Or.inl rfl
  | introduce here => exact Or.inl rfl
  | sendPendingRequestMsg here found => exact Or.inr (.greeted here found)

/-! ## Outlooks stay -/

/-- Whoever follows has followed before, and will hold the same. -/
def World.KeepsOutlook (s s' : World) : Prop :=
  ∀ j, (s'.processes j).main.follows = true →
    (s.processes j).main.follows = true ∧ s'.outlook j = s.outlook j

/-- At the other end of somebody who answers a new leader nobody is a member. -/
theorem InSession.not_member_of_answers {s : World} (session : InSession s) (wired : Wired s)
    {i j : ProcId} {k : Socket} {answering : List RequestId}
    (plays : (s.processes i).Plays k .answers)
    (plays' : (s.processes j).Plays k.peer (.member answering)) : False := by
  obtain ⟨less, own⟩ := wired.owner_of_plays plays
  obtain ⟨_, own'⟩ := wired.owner_of_plays plays'
  rcases session.joint less (.process (own ▸ plays)) (.process (own' ▸ plays')) with joint | joint
  · cases joint
  · cases joint

/-- Somebody who answers a new leader has nothing to read there. -/
theorem InSession.inbox_of_answers {s : World} (session : InSession s) (wired : Wired s)
    {i : ProcId} {k : Socket} (plays : (s.processes i).Plays k .answers) : s.inbox k = [] := by
  obtain ⟨less, own⟩ := wired.owner_of_plays plays
  have playing : s.Plays k .answers := .process (own ▸ plays)
  have here := session.session k less
  generalize s.inbox k = inbox at here ⊢
  generalize s.inbox k.peer = inbox' at here
  refine here.holds playing (fun R' joint => ?_) fun R' joint => ?_
  · cases joint
    rfl
  · cases joint

namespace World.Takes

variable {s s' : World} {e : Event} {i : ProcId} {t : Thread} {label : Label} {next : Process}

theorem owns (wired : Wired s) {j : ProcId} {k : Socket}
    (reads : (s.processes j).leaderClient = some k) : k.connection < s.opened ∧ s.owner k = j := by
  obtain ⟨less, own, _⟩ := wired.held j _ k (holds_of_leaderClient reads).2
  exact ⟨less, own⟩

/-- A process neither sends to itself nor reads for another one. -/
theorem inbox_self (h : s.Takes e s' i t label next) (wired : Wired s) {k : Socket}
    (reads : (s.processes i).leaderClient = some k)
    (unread : ∀ m, label ≠ .received k m) : s'.inbox k = s.inbox k := by
  obtain ⟨less, own⟩ := owns wired reads
  refine h.inbox_eq less ?_ ?_
  · rintro client m rfl here
    obtain ⟨p, holds⟩ := h.step.sent_holds
    obtain ⟨less', own', _⟩ := wired.held i p client holds
    rw [here] at own
    exact wired.owner_peer_ne less' (own.trans own'.symm)
  · rintro client m same rfl
    exact unread m same

/-- A follower that goes on will hold the same. -/
theorem outlook_self (h : s.Takes e s' i t label next) (wired : Wired s) (session : InSession s)
    (allowed : OneLeader s e) (follows : (s.processes i).main.follows = true)
    (idle : (s.processes i).detector = none) (stays : next.main.follows = true) :
    s'.outlook i = s.outlook i := by
  have attends := h.step.attends (wired.sound i) follows idle stays
  have met := h.met
  unfold World.outlook
  rw [h.here]
  cases attends with
  | stays client held elsewhere notConnected sends =>
      cases reads : (s.processes i).leaderClient with
      | none => rw [outlook_of_none (client.trans reads), outlook_of_none reads, held]
      | some k =>
          rw [outlook_of_reads (client.trans reads), outlook_of_reads reads, held,
            h.inbox_self wired reads]
          rintro m same
          rw [elsewhere k m same] at reads
          cases reads
  | @reads _ k m before client held =>
      obtain ⟨_, rest, head⟩ := met
      have after : s'.inbox k = rest := by
        rw [h.inbox]
        change Function.update s.inbox k (s.inbox k).tail k = rest
        rw [Function.update_self, head]
        rfl
      rw [outlook_of_reads client, outlook_of_reads before, held, after, head]
      rfl
  | loses before client held =>
      obtain ⟨empty, _⟩ := met
      rw [outlook_of_none client, outlook_of_reads before, held, empty]
      rfl
  | fails place before client held =>
      have empty := h.processed allowed rfl place
      unfold Process.unread at empty
      rw [before] at empty
      rw [outlook_of_none client, outlook_of_reads before, held, show s.inbox _ = [] from empty]
      rfl
  | @finds _ p k before client held =>
      have new : k = s.nextSocket := met
      have empty : s'.inbox k = [] := by
        rw [h.inbox]
        change Function.update (Function.update s.inbox k []) k.peer [] k = []
        rw [Function.update_of_ne k.peer_ne.symm, Function.update_self]
      rw [outlook_of_reads client, outlook_of_none before, held, empty]
      rfl
  | @answers _ k plays before client held =>
      have empty : s'.inbox k = [] := by
        rw [h.inbox]
        change Function.update s.inbox k.peer _ k = []
        rw [Function.update_of_ne k.peer_ne.symm]
        exact session.inbox_of_answers wired plays
      rw [outlook_of_reads client, outlook_of_none before, held, empty]
      rfl

/-- Nothing of account is sent to the other followers. -/
theorem outlook_other (h : s.Takes e s' i t label next) (wired : Wired s) {j : ProcId}
    (apart : j ≠ i) (sends : ∀ k m, label = .sent k m →
      (s.processes j).leaderClient = some k.peer → m.neutral = true) :
    s'.outlook j = s.outlook j := by
  unfold World.outlook
  rw [h.other apart]
  cases reads : (s.processes j).leaderClient with
  | none => rw [outlook_of_none reads, outlook_of_none reads]
  | some k =>
      rw [outlook_of_reads reads, outlook_of_reads reads]
      obtain ⟨less, own⟩ := owns wired reads
      by_cases sent : ∃ client m, label = .sent client m ∧ k = client.peer
      · obtain ⟨client, m, rfl, rfl⟩ := sent
        have neutral := sends client m rfl reads
        rw [h.inbox]
        change (Function.update s.inbox client.peer _ client.peer).foldl _ _ = _
        rw [Function.update_self, List.foldl_append]
        exact Held.absorb_neutral neutral _
      · rw [h.inbox_eq less (fun client m same here => sent ⟨client, m, same, here⟩)]
        rintro client m rfl rfl
        exact apart (own.symm.trans h.met.1)

/-- **Outlooks stay** in the steps of a process that is in no operation. -/
theorem keepsOutlook (h : s.Takes e s' i t label next) (wired : Wired s) (session : InSession s)
    (allowed : OneLeader s e) (outside : ∀ t, (s.processes i).operation t = none)
    (followed : next.main.follows = true → (s.processes i).main.follows = true) :
    s.KeepsOutlook s' := by
  intro j stays
  by_cases same : j = i
  · subst same
    rw [h.here] at stays
    exact ⟨followed stays, h.outlook_self wired session allowed (followed stays)
      (outside .detector) stays⟩
  · rw [h.other same] at stays
    refine ⟨stays, h.outlook_other wired same fun k m sent reads => ?_⟩
    subst sent
    rcases h.step.sends_neutral outside with neutral | plays
    · exact neutral
    · obtain ⟨_, plays'⟩ := plays_of_leaderClient reads
      exact (session.not_member_of_answers wired plays plays').elim

/-- A follower is not cut off from a leader that is there. -/
theorem reads_on (h : s.Takes e s' i t label next) (wired : Wired s)
    (follows : (s.processes i).main.follows = true) (idle : (s.processes i).detector = none)
    (stays : next.main.follows = true) {k : Socket}
    (reads : (s.processes i).leaderClient = some k) (there : s.ended k.peer = false) :
    next.leaderClient = some k := by
  have cutOff {k' : Socket} (before : (s.processes i).leaderClient = some k')
      (ended : s.ended k'.peer = true) : False := by
    rw [reads] at before
    cases before
    rw [there] at ended
    cases ended
  have attends := h.step.attends (wired.sound i) follows idle stays
  have met := h.met
  cases attends with
  | stays client _ _ _ _ => exact client.trans reads
  | reads before client _ =>
      rw [reads] at before
      cases before
      exact client
  | loses before _ _ => exact (cutOff before met.2).elim
  | fails _ before _ _ => exact (cutOff before met).elim
  | finds before _ _ =>
      rw [reads] at before
      cases before
  | answers _ before _ _ =>
      rw [reads] at before
      cases before

/-- Where a follower comes to read from. -/
theorem read_before (h : s.Takes e s' i t label next) (wired : Wired s)
    (follows : (s.processes i).main.follows = true) (idle : (s.processes i).detector = none)
    (stays : next.main.follows = true) {k : Socket} (reads : next.leaderClient = some k) :
    (s.processes i).leaderClient = some k ∨ k = s.nextSocket ∨
      (s.processes i).Plays k .answers := by
  have attends := h.step.attends (wired.sound i) follows idle stays
  have met := h.met
  cases attends with
  | stays client _ _ _ _ => exact Or.inl (client.symm.trans reads)
  | reads before client _ =>
      rw [reads] at client
      cases client
      exact Or.inl before
  | loses _ client _ =>
      rw [reads] at client
      cases client
  | fails _ _ client _ =>
      rw [reads] at client
      cases client
  | finds _ client _ =>
      rw [reads] at client
      cases client
      exact Or.inr (Or.inl met)
  | answers plays _ client _ =>
      rw [reads] at client
      cases client
      exact Or.inr (Or.inr plays)

end World.Takes

/-! ## What a failure detector learns -/

/-- A failure detector that has learned something has changed nothing else. -/
structure Process.Learns (pr next : Process) : Prop where
  me : next.me = pr.me
  main : next.main = pr.main
  installed : next.installed = pr.installed
  service : ∃ leaderCrashed, next.service = { pr.service with leaderCrashed := leaderCrashed }
  idle : pr.detector = none
  /-- It deletes a peer when the main thread of a leader is in no operation. -/
  detector : next.detector = none ∨ pr.main.serves = true ∧ pr.operation .main = none ∧
    ∃ p, next.detector = some (.call p .DEL)

namespace Process.Learns

variable {pr next : Process}

theorem heartBeat (idle : pr.detector = none) (p : PeerId) : pr.Learns (pr.heartBeat p) :=
  ⟨rfl, rfl, rfl, ⟨_, rfl⟩, idle, Or.inl idle⟩

theorem tick (idle : pr.detector = none) {order : List PeerId}
    (allowed : pr.startsDeletion order = true →
      pr.main.serves = true ∧ pr.operation .main = none) : pr.Learns (pr.tick order) := by
  cases starts : pr.startsDeletion order with
  | false =>
      obtain ⟨_, _, _, same⟩ := Process.tick_undeleting starts
      rw [same]
      exact ⟨rfl, rfl, rfl, ⟨_, rfl⟩, idle, Or.inl idle⟩
  | true =>
      obtain ⟨leaderCrashed, detector, _, _, same⟩ := pr.tick_eq order
      obtain ⟨serves, free⟩ := allowed starts
      refine ⟨by rw [same], by rw [same], by rw [same], ⟨leaderCrashed, by rw [same]⟩, idle,
        Or.inr ⟨serves, free, ?_⟩⟩
      unfold startsDeletion at starts
      rw [Bool.and_eq_true, decide_eq_true_iff] at starts
      obtain ⟨p, detected⟩ := Option.isSome_iff_exists.mp starts.2
      refine ⟨p, ?_⟩
      unfold Process.tick
      dsimp only
      rw [detected]
      unfold handlePeerFailure
      dsimp only
      rw [if_pos starts.1]

theorem leaderClient (h : pr.Learns next) : next.leaderClient = pr.leaderClient := by
  obtain ⟨leaderCrashed, service⟩ := h.service
  unfold Process.leaderClient
  rw [h.main, service]

theorem held (h : pr.Learns next) : next.service.held = pr.service.held := by
  obtain ⟨leaderCrashed, service⟩ := h.service
  rw [service]
  rfl

theorem outlook (h : pr.Learns next) (inbox : Socket → List Msg) :
    next.outlook inbox = pr.outlook inbox := by
  unfold Process.outlook Process.unread
  rw [h.leaderClient, h.held]

theorem keepsOutlook {s : World} {i : ProcId} (h : (s.processes i).Learns next) :
    s.KeepsOutlook (s.setProcess i next) := by
  intro j follows
  unfold World.outlook
  change (Function.update s.processes i next j).main.follows = true at follows
  change _ ∧ (Function.update s.processes i next j).outlook s.inbox = _
  rw [Function.update_apply] at follows ⊢
  split
  · rename_i same
    rw [if_pos same, h.main] at follows
    rw [same]
    exact ⟨follows, h.outlook s.inbox⟩
  · rename_i other
    rw [if_neg other] at follows
    exact ⟨follows, rfl⟩

end Process.Learns

/-- One process takes part in an event, where one process leads at a time. -/
theorem World.takes_or_learns {hosts : List PeerId} {s s' : World} {e : Event} {i : ProcId}
    (wired : Wired s) (taken : s.step hosts e = some s') (allowed : OneLeader s e)
    (actor : e.actor = some i) :
    (∃ t label next, s.Takes e s' i t label next) ∨
      ∃ next, (s.processes i).Learns next ∧ s' = s.setProcess i next := by
  rcases takes_of_step wired taken actor with takes | ⟨_, idle, ⟨p, _, same⟩ | ⟨order, rfl, same⟩⟩
  · exact Or.inl takes
  · exact Or.inr ⟨_, .heartBeat idle p, same⟩
  · exact Or.inr ⟨_, .tick idle allowed, same⟩

/-! ## A new process -/

/-- Process `i` has started. -/
structure World.Starts (s s' : World) (i : ProcId) : Prop where
  other : ∀ j ≠ i, s'.processes j = s.processes j
  inbox : s'.inbox = s.inbox
  place : ∃ hosts, (s'.processes i).main = .findLeader hosts
  idle : (s'.processes i).detector = none
  held : (s'.processes i).service.held.pendingRequest = getDummyPendingRequestMsg

namespace World.Starts

variable {s s' : World} {i j : ProcId}

theorem of_step {hosts : List PeerId} {e : Event} (taken : s.step hosts e = some s')
    (actor : e.actor = none) : s.Starts s' s.started := by
  cases worldStep_of_step taken with
  | @start p listed down =>
      have fresh : { s.setProcess s.started { me := p, main := .findLeader hosts } with
          started := s.started + 1 }.processes s.started = { me := p, main := .findLeader hosts } :=
        Function.update_self _ _ _
      refine ⟨fun j apart => Function.update_of_ne apart _ _, rfl, ⟨hosts, ?_⟩, ?_, ?_⟩
      · rw [fresh]
      · rw [fresh]
      · rw [fresh]
        rfl
  | _ => cases actor

theorem outlook (h : s.Starts s' i) (apart : j ≠ i) : s'.outlook j = s.outlook j := by
  unfold World.outlook
  rw [h.other j apart, h.inbox]

theorem leaderClient (h : s.Starts s' i) : (s'.processes i).leaderClient = none := by
  obtain ⟨hosts, place⟩ := h.place
  exact leaderClient_of_not_reads (by rw [place]; rfl)

/-- Whoever holds a request has not just started. -/
theorem apart (h : s.Starts s' i)
    (something : (s'.outlook j).pendingRequest ≠ getDummyPendingRequestMsg) : j ≠ i := by
  rintro rfl
  unfold World.outlook at something
  rw [outlook_of_none h.leaderClient, h.held] at something
  exact something rfl

theorem holdsRequest (h : s.Starts s' i) (holds : s'.holdsRequest j = true) :
    j ≠ i ∧ s.holdsRequest j = true := by
  obtain ⟨follows, something⟩ := holdsRequest_iff.mp holds
  have apart := h.apart something
  rw [h.other j apart] at follows
  rw [h.outlook apart] at something
  exact ⟨apart, holdsRequest_iff.mpr ⟨follows, something⟩⟩

end World.Starts

/-! ## Connections in use -/

/-- No connection that is in use or waits has been reset. -/
structure World.Unreset (s : World) : Prop where
  held : ∀ i p k, (s.processes i).Holds p k → s.reset k = false
  waiting : ∀ i, ∀ k ∈ s.backlog i, s.reset k = false

/-- A step without a new connection. -/
theorem World.Unreset.replace {s s' : World} {i : ProcId} {next : Process} (h : s.Unreset)
    (processes : s'.processes = Function.update s.processes i next)
    (reset : s'.reset = s.reset) (backlog : s'.backlog = s.backlog)
    (holds : ∀ p k, next.Holds p k → (s.processes i).Holds p k) : s'.Unreset where
  held j p k now := by
    rw [reset]
    rw [processes, Function.update_apply] at now
    split at now
    · exact h.held i p k (holds p k now)
    · exact h.held j p k now
  waiting j k waits := by
    rw [reset]
    rw [backlog] at waits
    exact h.waiting j k waits

theorem WorldStep.unreset {hosts : List PeerId} {s s' : World} {e : Event}
    (h : WorldStep hosts s e s') (wired : Wired s) (session : InSession s) (before : s.Unreset) :
    s'.Unreset := by
  have kept {i : ProcId} {t : Thread} {label : Label} {next : Process}
      (step : ThreadStep (s.processes i) t label next)
      (notConnected : ∀ p k, label ≠ .connected p k)
      (notAccepted : ∀ close k p, label ≠ .accepted close k p) :
      ∀ p k, next.Holds p k → (s.processes i).Holds p k :=
    step.holds_back notConnected notAccepted
  cases h with
  | start =>
      refine before.replace rfl rfl rfl fun p k holds => ?_
      rcases holds with found | ⟨_, _, _, main⟩
      · cases found
      · cases main
  | crash running =>
      exact before.replace rfl rfl rfl fun p k holds =>
        holds.back_main rfl fun _ _ _ _ _ same => by cases same
  | heartBeat running _ _ => exact before.replace rfl rfl rfl fun _ _ holds => holds
  | @tick i order running _ _ =>
      obtain ⟨_, _, _, _, same⟩ := (s.processes i).tick_eq order
      rw [same]
      exact before.replace rfl rfl rfl fun _ _ holds => holds
  | silent running step =>
      exact before.replace rfl rfl rfl
        (kept step (fun _ _ same => by cases same) fun _ _ _ same => by cases same)
  | sent running step =>
      exact before.replace rfl rfl rfl
        (kept step (fun _ _ same => by cases same) fun _ _ _ same => by cases same)
  | failed running _ step =>
      exact before.replace rfl rfl rfl
        (kept step (fun _ _ same => by cases same) fun _ _ _ same => by cases same)
  | received running _ step =>
      exact before.replace rfl rfl rfl
        (kept step (fun _ _ same => by cases same) fun _ _ _ same => by cases same)
  | lost running _ _ step =>
      exact before.replace rfl rfl rfl
        (kept step (fun _ _ same => by cases same) fun _ _ _ same => by cases same)
  | refused running _ step =>
      exact before.replace rfl rfl rfl
        (kept step (fun _ _ same => by cases same) fun _ _ _ same => by cases same)
  | @connected i t peer j next running _ _ step =>
      have opened : ∀ k, s.reset k = false ∨ k = s.nextSocket ∨ k = s.nextSocket.peer →
          (s.openConnection i j).reset k = false := by
        intro k here
        change Function.update (Function.update s.reset s.nextSocket false) s.nextSocket.peer false
          k = false
        rw [Function.update_apply, Function.update_apply]
        split
        · rfl
        · rename_i notPeer
          split
          · rfl
          · rename_i notNext
            exact here.resolve_right fun new => new.elim notNext notPeer
      refine ⟨fun l p k holds => opened k ?_, fun l k waits => opened k ?_⟩
      · change (Function.update s.processes i next l).Holds p k at holds
        rw [Function.update_apply] at holds
        split at holds
        · rcases step.holds holds with old | new | ⟨close, new⟩
          · exact Or.inl (before.held i p k old)
          · cases new
            exact Or.inr (Or.inl rfl)
          · cases new
        · exact Or.inl (before.held l p k holds)
      · have waits' : k ∈ ((s.openConnection i j).setProcess i next).backlog l := waits
        rcases mem_backlog_openConnection waits' with old | ⟨_, new⟩
        · exact Or.inl (before.waiting l k old)
        · exact Or.inr (Or.inr new)
  | @accepted i t close client rest next running head step =>
      have waits : ∀ k ∈ client :: rest, k ∈ s.backlog i := fun k mem => head ▸ mem
      -- what is closed has been accepted by nobody
      have apart : ∀ k, s.reset k = false → (close = true → k ∉ rest) →
          (s.acceptConnection i close rest).reset k = false := by
        intro k unreset notClosed
        change (s.reset k || (close && decide (k ∈ rest))) = false
        rw [unreset, Bool.false_or, Bool.and_eq_false_iff]
        cases close with
        | false => exact Or.inl rfl
        | true => exact Or.inr (decide_eq_false (notClosed rfl))
      have unheld {l : ProcId} {p : PeerId} {k : Socket} (holds : (s.processes l).Holds p k) :
          k ∉ rest := by
        intro mem
        have here := waits k (List.mem_cons_of_mem _ mem)
        have own := (wired.held l p k holds).2.1
        have own' := (wired.waiting i k here).2
        rw [own.symm.trans own'] at holds
        exact session.unused i p k here holds
      have once : client ∉ rest := by
        have nodup := session.queue i
        rw [head] at nodup
        exact (List.nodup_cons.mp nodup).1
      refine ⟨fun l p k holds => ?_, fun l k there => ?_⟩
      · change (Function.update s.processes i next l).Holds p k at holds
        rw [Function.update_apply] at holds
        split at holds
        · rcases step.holds holds with old | new | ⟨close', new⟩
          · exact apart k (before.held i p k old) fun _ => unheld old
          · cases new
          · cases new
            exact apart client (before.waiting i client (waits client List.mem_cons_self))
              fun _ => once
        · exact apart k (before.held l p k holds) fun _ => unheld holds
      · change k ∈ Function.update s.backlog i (if close then [] else rest) l at there
        rw [Function.update_apply] at there
        split at there
        · split at there
          · cases there
          · rename_i stays
            exact apart k (before.waiting i k (waits k (List.mem_cons_of_mem _ there)))
              fun closes => absurd closes stays
        · rename_i other
          refine apart k (before.waiting l k there) fun _ mem => other ?_
          have own := (wired.waiting l k there).2
          have own' := (wired.waiting i k (waits k (List.mem_cons_of_mem _ mem))).2
          exact own.symm.trans own'

theorem World.Unreset.init : World.Unreset {} where
  held _ _ _ _ := rfl
  waiting _ _ _ := rfl

end GroupComm.Lab2
