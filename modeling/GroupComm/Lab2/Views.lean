import GroupComm.Lab2.Announcements
import GroupComm.Lab2.Connections

/-!
# Views on their way

What a step of a process has to do with views: those it makes, those it sends and those it
reads (`ThreadStep.installed_eq`, `sends_view`, `reads_view`).  The views that reach a process
on a connection are those it has installed, followed by those in its inbox (`World.stream`).

`Process.Steady` is what a process keeps that runs one `modifyGroupMembership` at a time: what
it has still to send is the view it has installed last.
-/

namespace GroupComm.Lab2

open MembershipService

/-- The view that a message announces. -/
def NewViewMsg.view (m : NewViewMsg) : View :=
  ⟨m.newViewId, OrderedSet.ofList m.members⟩

theorem View.view_newViewMsg (v : View) : v.newViewMsg.view = v := by
  unfold View.newViewMsg NewViewMsg.view
  dsimp only
  rw [OrderedSet.ofList_toList]

/-- The views announced in an inbox. -/
def viewsIn (inbox : List Msg) : List View :=
  inbox.filterMap fun
    | .newView m => some m.view
    | _ => none

@[simp] theorem viewsIn_append (inbox inbox' : List Msg) :
    viewsIn (inbox ++ inbox') = viewsIn inbox ++ viewsIn inbox' :=
  List.filterMap_append

def World.stream (s : World) (k : Socket) : List View :=
  (s.processes (s.owner k)).installed ++ viewsIn (s.inbox k)

/-! ## What a step makes, sends and reads -/

/-- The views made in a step. -/
def Label.created : Label → List Creation
  | silent created => created
  | _ => []

section

variable {pr next : Process} {t : Thread} {label : Label} {k : Socket} {m : NewViewMsg}

/-- A process installs the views that it makes, and those that it reads. -/
theorem ThreadStep.installed_eq (step : ThreadStep pr t label next)
    (notRead : ∀ k m, label ≠ .received k (.newView m)) :
    next.installed = pr.installed ++ label.created.map Creation.view := by
  have nothing {installed : List View} (same : installed = pr.installed) :
      installed = pr.installed ++ [] := by
    rw [same, List.append_nil]
  cases step with
  | dies fatal =>
      cases label with
      | silent created =>
          cases fatal
          exact nothing rfl
      | failed client m => exact nothing rfl
      | received client m => exact nothing rfl
      | lost client => exact nothing rfl
      | sent client m => cases fatal
      | connected peer client => cases fatal
      | refused peer => cases fatal
      | accepted close client peer => cases fatal
  | newView place => exact Process.installed_setOperation _ _ _
  | startAsLeader place free => rfl
  | nothingPending place nothing => rfl
  | followerReceives place found free =>
      rename_i k m
      cases m with
      | newView m => exact absurd rfl (notRead k m)
      | request m => exact nothing rfl
      | ok m => exact nothing rfl
      | newLeader m => exact nothing rfl
  | waitForLeaderCrash place crashed => exact nothing rfl
  | handleLeaderCrash place idle =>
      apply nothing
      unfold Process.handleLeaderCrash
      dsimp only
      split
      · rfl
      · rfl
  | call place => exact nothing (Process.installed_setOperation _ _ _)
  | lock place free => exact nothing (Process.installed_setOperation _ _ _)
  | sendRequestMsg place found => exact nothing (Process.installed_setOperation _ _ _)
  | requestsSent place => exact nothing (Process.installed_setOperation _ _ _)
  | waitForOkMsg place found expected => exact nothing (Process.installed_setOperation _ _ _)
  | printNewlyInstalledView place free => exact nothing (Process.installed_setOperation _ _ _)
  | sendNewViewMsg place => exact nothing (Process.installed_setOperation _ _ _)
  | lockView place free => exact nothing (Process.installed_setOperation _ _ _)
  | deliver place found => exact nothing (Process.installed_setOperation _ _ _)
  | delivered place => exact nothing (Process.installed_finishOperation _ _)
  | skipMyself place => exact nothing rfl
  | leaderFound place other => exact nothing rfl
  | noLeaderThere place other => exact nothing rfl
  | noLeaderFound place => exact nothing rfl
  | accept place => exact nothing rfl
  | leaderLost place found => exact nothing rfl
  | sendOkMsg place found => exact nothing rfl
  | okMsgFailed place found => exact nothing rfl
  | reconnect place => exact nothing rfl
  | unreachable place => exact nothing rfl
  | reconnected place => exact nothing rfl
  | introduce place => exact nothing rfl
  | introduceFailed place => exact nothing rfl
  | pendingRequest place found => exact nothing rfl
  | notConnected place missing => exact nothing rfl
  | completeRequest place pending => exact nothing rfl
  | waitForNewLeaderMsg place => exact nothing rfl
  | greet place => exact nothing rfl
  | sendPendingRequestMsg place found => exact nothing rfl

theorem ThreadStep.reads_view (step : ThreadStep pr t (.received k (.newView m)) next) :
    next = pr.terminate ∨ pr.main = .startAsFollower ∧
      pr.service.tcpClientMap pr.service.leaderPeerId = some k ∧
        next = pr.followerReceives (.newView m) := by
  cases step with
  | dies _ => exact Or.inl rfl
  | followerReceives place found _ => exact Or.inr ⟨place, found, rfl⟩

theorem ThreadStep.sends_view (step : ThreadStep pr t (.sent k (.newView m)) next) :
    ∃ p rest, pr.operation t = some (.deliver m (p :: rest)) ∧
      pr.service.tcpClientMap p = some k ∧ next = pr.setOperation (.deliver m rest) t := by
  cases step with
  | dies fatal => cases fatal
  | deliver place found => exact ⟨_, _, place, found, rfl⟩

/-- A member installs the view that it reads. -/
theorem Process.installed_followerReceives (mem : pr.me ∈ m.view.members) :
    (pr.followerReceives (.newView m)).installed = pr.installed ++ [m.view] := by
  have members : ((OrderedSet.ofList m.members).erase pr.me).insert pr.me =
      OrderedSet.ofList m.members := OrderedSet.insert_erase mem
  change pr.installed ++ [⟨m.newViewId, _⟩] = pr.installed ++ [⟨m.newViewId, _⟩]
  unfold processNewViewMsg getGroupMembers
  dsimp only
  rw [members]

end

/-! ## One change at a time -/

/-- The places at which the failure detector may delete: the main thread is not in
`modifyGroupMembership` and follows nobody. -/
def MainState.idle : MainState → Bool
  | findLeader _ => true
  | startAsLeader => true
  | accept => true
  | _ => false

/-- The view is still to be sent to `p`. -/
def Operation.owesView (operation : Operation) (p : PeerId) : Bool :=
  match operation with
  | .printNewlyInstalledView => true
  | .sendNewViewMsg => true
  | .lockView _ => true
  | .deliver _ rest => decide (p ∈ rest)
  | _ => false

namespace Process

def UpToDate (pr : Process) : Prop :=
  pr.installed.getLast? = some (pr.service.installedView pr.me)

/-- What a thread has still to say about the view installed last. -/
def Tells (pr : Process) : Operation → Prop
  | .printNewlyInstalledView => pr.UpToDate
  | .sendNewViewMsg => pr.UpToDate
  | .lockView newViewId => newViewId = pr.service.viewId ∧ pr.UpToDate
  | .deliver newViewMsg rest =>
      newViewMsg = (pr.service.installedView pr.me).newViewMsg ∧ rest.Nodup ∧
        (∀ p ∈ rest, p ∈ pr.service.alivePeers) ∧ pr.UpToDate
  | _ => True

structure Steady (pr : Process) : Prop where
  idle : pr.detector ≠ none → pr.main.idle = true
  tells : ∀ t operation, pr.operation t = some operation → pr.Tells operation

/-- The view installed last is still to be sent to `p`. -/
def owesView (pr : Process) (p : PeerId) : Bool :=
  (pr.operation .main).any (fun operation => operation.owesView p) ||
    (pr.operation .detector).any fun operation => operation.owesView p

theorem tells_congr {pr next : Process} {operation : Operation} (tells : pr.Tells operation)
    (installed : next.installed = pr.installed) (me : next.me = pr.me)
    (viewId : next.service.viewId = pr.service.viewId)
    (alivePeers : next.service.alivePeers = pr.service.alivePeers) : next.Tells operation := by
  have view : next.service.installedView next.me = pr.service.installedView pr.me := by
    unfold installedView getGroupMembers
    rw [me, viewId, alivePeers]
  unfold Tells UpToDate at tells ⊢
  rw [installed, view, viewId, alivePeers]
  exact tells

theorem upToDate_install (pr : Process) : pr.install.UpToDate :=
  List.getLast?_concat

theorem operation_of_idle {pr : Process} (idle : pr.main.idle = true) :
    pr.operation .main = none := by
  unfold operation
  dsimp only
  cases main : pr.main
  case addPeer =>
    rw [main] at idle
    cases idle
  case completeRequest =>
    rw [main] at idle
    cases idle
  all_goals rfl

/-- No thread is in `modifyGroupMembership`. -/
theorem Steady.of_idle {pr : Process} (main : pr.operation .main = none)
    (detector : pr.detector = none) : pr.Steady := by
  refine ⟨fun busy => absurd detector busy, ?_⟩
  intro t operation place
  cases t with
  | main =>
      rw [main] at place
      cases place
  | detector =>
      change pr.detector = _ at place
      rw [detector] at place
      cases place

/-- One thread is in `modifyGroupMembership` at a time. -/
theorem Steady.alone {pr : Process} (steady : pr.Steady) {t : Thread} {operation : Operation}
    (place : pr.operation t = some operation) : pr.operation t.other = none := by
  rcases operation_cases place with ⟨rfl, here⟩ | ⟨rfl, here⟩ | ⟨rfl, here⟩
  · by_contra busy
    have idle := steady.idle busy
    rw [here] at idle
    cases idle
  · by_contra busy
    have idle := steady.idle busy
    rw [here] at idle
    cases idle
  · have idle := steady.idle (by rw [here]; exact Option.some_ne_none _)
    exact operation_of_idle idle

/-- A thread goes on in `modifyGroupMembership`. -/
theorem Steady.setOperation {pr : Process} (steady : pr.Steady) {t : Thread}
    {operation next : Operation} (place : pr.operation t = some operation) (data : Process)
    (main : data.main = pr.main) (detector : data.detector = pr.detector)
    (tells : data.Tells next) : (data.setOperation next t).Steady := by
  have moved := operation_setOperation place main detector next
  refine ⟨?_, ?_⟩
  · intro busy
    cases t with
    | detector =>
        change data.main.idle = true
        rw [main]
        exact steady.idle (by change pr.detector = _ at place; rw [place]; exact Option.some_ne_none _)
    | main =>
        have alone := (moved .detector).trans (steady.alone place)
        exact absurd alone busy
  · intro t' operation' here
    rw [moved] at here
    split at here
    · cases here
      exact tells_congr tells (by simp) (by simp) (by simp) (by simp)
    · rename_i apart
      rw [Thread.eq_other apart, steady.alone place] at here
      cases here

theorem Steady.finishOperation {pr : Process} (steady : pr.Steady) {t : Thread}
    {operation : Operation} (place : pr.operation t = some operation) :
    (pr.finishOperation t).Steady := by
  have moved := operation_finishOperation place
  have none : ∀ t', (pr.finishOperation t).operation t' = none := by
    intro t'
    rw [moved]
    split
    · rfl
    · rename_i apart
      rw [Thread.eq_other apart]
      exact steady.alone place
  exact .of_idle (none .main) (none .detector)

/-- The main thread moves without a change, whatever the failure detector does. -/
theorem Steady.of_main {pr next : Process} (steady : pr.Steady)
    (operation : next.operation .main = none) (idle : next.main.idle = true)
    (detector : next.detector = pr.detector)
    (tells : ∀ operation, pr.Tells operation → next.Tells operation) : next.Steady := by
  refine ⟨fun _ => idle, ?_⟩
  intro t operation' place
  cases t with
  | main =>
      rw [operation] at place
      cases place
  | detector =>
      change next.detector = _ at place
      rw [detector] at place
      exact tells operation' (steady.tells .detector operation' place)

/-- Only the main thread is in `modifyGroupMembership`. -/
theorem Steady.of_call {pr : Process} (detector : pr.detector = none)
    (tells : ∀ operation, pr.operation .main = some operation → pr.Tells operation) :
    pr.Steady := by
  refine ⟨fun busy => absurd detector busy, ?_⟩
  intro t operation place
  cases t with
  | main => exact tells operation place
  | detector =>
      change pr.detector = _ at place
      rw [detector] at place
      cases place

/-- The failure detector is idle where the main thread follows or takes over. -/
theorem Steady.undetecting {pr : Process} (steady : pr.Steady) (busy : pr.main.idle = false) :
    pr.detector = none := by
  by_contra detects
  have idle := steady.idle detects
  rw [busy] at idle
  cases idle

theorem owesView_of_place {pr : Process} (steady : pr.Steady) {t : Thread} {operation : Operation}
    (place : pr.operation t = some operation) (p : PeerId) :
    pr.owesView p = operation.owesView p := by
  have alone := steady.alone place
  unfold owesView
  cases t with
  | main =>
      rw [place, show pr.operation .detector = none from alone]
      exact Bool.or_false _
  | detector =>
      rw [place, show pr.operation .main = none from alone]
      exact Bool.false_or _

theorem owesView_of_idle {pr : Process} (idle : ∀ t, pr.operation t = none) (p : PeerId) :
    pr.owesView p = false := by
  unfold owesView
  rw [idle, idle]
  rfl

/-- What is owed after a step in `modifyGroupMembership`. -/
theorem Steady.owesView_setOperation {pr : Process} (steady : pr.Steady) {t : Thread}
    {operation next : Operation} (place : pr.operation t = some operation) (data : Process)
    (main : data.main = pr.main) (detector : data.detector = pr.detector) (p : PeerId) :
    (data.setOperation next t).owesView p = next.owesView p := by
  have moved := operation_setOperation place main detector next
  have alone := steady.alone place
  unfold owesView
  rw [moved, moved]
  cases t with
  | main =>
      rw [if_pos rfl, if_neg (by decide), show pr.operation .detector = none from alone]
      exact Bool.or_false _
  | detector =>
      rw [if_pos rfl, if_neg (by decide), show pr.operation .main = none from alone]
      exact Bool.false_or _

theorem Steady.owesView_finishOperation {pr : Process} (steady : pr.Steady) {t : Thread}
    {operation : Operation} (place : pr.operation t = some operation) (p : PeerId) :
    (pr.finishOperation t).owesView p = false := by
  apply owesView_of_idle
  intro t'
  rw [operation_finishOperation place]
  split
  · rfl
  · rename_i apart
    rw [Thread.eq_other apart]
    exact steady.alone place

/-- A tick that deletes nobody. -/
theorem tick_undeleting {pr : Process} {order : List PeerId}
    (none : pr.startsDeletion order = false) :
    ∃ leaderCrashed heartBeats suspect, pr.tick order =
      { pr with
        service := { pr.service with leaderCrashed := leaderCrashed }
        heartBeats := heartBeats
        suspect := suspect } := by
  unfold Process.tick
  dsimp only
  split
  · rename_i crashedPeerId reported
    unfold handlePeerFailure
    split
    · rename_i leads
      rw [startsDeletion, reported, Bool.and_eq_false_iff] at none
      rcases none with other | nobody
      · exact absurd leads (of_decide_eq_false other)
      · cases nobody
    · split
      · exact ⟨true, _, _, rfl⟩
      · exact ⟨pr.service.leaderCrashed, _, pr.suspect, rfl⟩
  · exact ⟨pr.service.leaderCrashed, _, pr.suspect, rfl⟩

theorem Steady.tick {pr : Process} (steady : pr.Steady) {order : List PeerId}
    (idle : pr.startsDeletion order = true → pr.main.idle = true) : (pr.tick order).Steady := by
  obtain ⟨before, tells⟩ := steady
  have kept (heartBeats : PeerHeartBeatMap) (leaderCrashed : Bool) (suspect : Option PeerId) :
      Steady { pr with
        service := { pr.service with leaderCrashed := leaderCrashed }
        heartBeats := heartBeats
        suspect := suspect } :=
    ⟨before, fun t operation place =>
      tells_congr (tells t operation (by cases t <;> exact place)) rfl rfl rfl rfl⟩
  unfold Process.tick
  dsimp only
  split
  · rename_i crashedPeerId reported
    unfold handlePeerFailure
    split
    · rename_i isLeader
      have starts : pr.startsDeletion order = true := by
        rw [startsDeletion, reported, Bool.and_eq_true]
        exact ⟨decide_eq_true isLeader, rfl⟩
      refine ⟨fun _ => idle starts, ?_⟩
      intro t operation place
      cases t with
      | main => exact tells_congr (tells .main operation place) rfl rfl rfl rfl
      | detector =>
          cases place
          exact trivial
    · split
      · exact kept _ _ _
      · exact kept _ pr.service.leaderCrashed pr.suspect
  · exact kept _ pr.service.leaderCrashed pr.suspect

end Process

open Process

/-- One change at a time is kept by every step that begins none beside another one. -/
theorem ThreadStep.steady {pr next : Process} {t : Thread} {label : Label}
    (step : ThreadStep pr t label next) (steady : pr.Steady)
    (alone : (∃ k p, label = .connected p k) ∨ (∃ close k p, label = .accepted close k p) →
      pr.detector = none) : next.Steady := by
  cases step with
  | dies _ => exact .of_idle rfl rfl
  | call place =>
      exact steady.setOperation place { pr with service := pr.service.countRequest } rfl rfl trivial
  | @lock t m place free => exact steady.setOperation place (pr.beginOperation m) rfl rfl trivial
  | sendRequestMsg place found => exact steady.setOperation place pr rfl rfl trivial
  | requestsSent place => exact steady.setOperation place pr rfl rfl trivial
  | waitForOkMsg place found expected => exact steady.setOperation place pr rfl rfl trivial
  | @newView t m place =>
      exact steady.setOperation place (pr.endOperation m) rfl rfl (upToDate_install _)
  | printNewlyInstalledView place free =>
      have upToDate : pr.UpToDate := steady.tells _ _ place
      exact steady.setOperation place pr rfl rfl upToDate
  | sendNewViewMsg place =>
      have upToDate : pr.UpToDate := steady.tells _ _ place
      exact steady.setOperation place pr rfl rfl ⟨rfl, upToDate⟩
  | lockView place free =>
      obtain ⟨read, upToDate⟩ := steady.tells _ _ place
      refine steady.setOperation place pr rfl rfl ⟨?_, pr.service.alivePeers.nodup, ?_, upToDate⟩
      · rw [read]
        rfl
      · exact fun _ mem => mem
  | deliver place found =>
      obtain ⟨same, nodup, alive, upToDate⟩ := steady.tells _ _ place
      refine steady.setOperation place pr rfl rfl
        ⟨same, (List.nodup_cons.mp nodup).2, ?_, upToDate⟩
      exact fun p mem => alive p (List.mem_cons_of_mem _ mem)
  | delivered place => exact steady.finishOperation place
  | skipMyself place =>
      exact steady.of_main rfl rfl rfl fun _ tells => tells_congr tells rfl rfl rfl rfl
  | leaderFound place other => exact .of_idle rfl (alone (Or.inl ⟨_, _, rfl⟩))
  | noLeaderThere place other =>
      exact steady.of_main rfl rfl rfl fun _ tells => tells_congr tells rfl rfl rfl rfl
  | noLeaderFound place =>
      exact steady.of_main rfl rfl rfl fun _ tells => tells_congr tells rfl rfl rfl rfl
  | startAsLeader place free =>
      refine steady.of_main rfl rfl rfl ?_
      intro operation tells
      cases operation
      case printNewlyInstalledView => exact upToDate_install pr
      case sendNewViewMsg => exact upToDate_install pr
      case lockView => exact ⟨tells.1, upToDate_install pr⟩
      case deliver => exact ⟨tells.1, tells.2.1, tells.2.2.1, upToDate_install pr⟩
      all_goals exact trivial
  | accept place =>
      refine .of_call (alone (Or.inr ⟨_, _, _, rfl⟩)) ?_
      intro operation here
      cases here
      exact trivial
  | followerReceives place found free =>
      have idle := steady.undetecting (by rw [place]; rfl)
      rename_i k m
      cases m with
      | request m => exact .of_idle rfl idle
      | newView m =>
          have before : pr.operation .main = none := by
            unfold operation
            dsimp only
            rw [place]
          exact .of_idle before idle
      | ok m => exact .of_idle rfl rfl
      | newLeader m => exact .of_idle rfl rfl
  | leaderLost place found => exact .of_idle rfl (steady.undetecting (by rw [place]; rfl))
  | sendOkMsg place found => exact .of_idle rfl (steady.undetecting (by rw [place]; rfl))
  | okMsgFailed place found => exact .of_idle rfl (steady.undetecting (by rw [place]; rfl))
  | waitForLeaderCrash place crashed => exact .of_idle rfl (steady.undetecting (by rw [place]; rfl))
  | handleLeaderCrash place idle =>
      unfold Process.handleLeaderCrash
      dsimp only
      split
      · exact .of_idle rfl idle
      · exact .of_idle rfl idle
  | reconnect place => exact .of_idle rfl (steady.undetecting (by rw [place]; rfl))
  | unreachable place => exact .of_idle rfl (steady.undetecting (by rw [place]; rfl))
  | reconnected place => exact .of_idle rfl (steady.undetecting (by rw [place]; rfl))
  | introduce place => exact .of_idle rfl (steady.undetecting (by rw [place]; rfl))
  | introduceFailed place => exact .of_idle rfl (steady.undetecting (by rw [place]; rfl))
  | pendingRequest place found => exact .of_idle rfl (steady.undetecting (by rw [place]; rfl))
  | notConnected place missing => exact .of_idle rfl (steady.undetecting (by rw [place]; rfl))
  | completeRequest place pending =>
      refine .of_call (steady.undetecting (by rw [place]; rfl)) ?_
      intro operation here
      cases here
      exact trivial
  | nothingPending place nothing =>
      refine .of_call (steady.undetecting (by rw [place]; rfl)) ?_
      intro operation here
      cases here
      exact upToDate_install pr
  | waitForNewLeaderMsg place => exact .of_idle rfl (steady.undetecting (by rw [place]; rfl))
  | greet place => exact .of_idle rfl (steady.undetecting (by rw [place]; rfl))
  | sendPendingRequestMsg place found => exact .of_idle rfl (steady.undetecting (by rw [place]; rfl))

end GroupComm.Lab2
