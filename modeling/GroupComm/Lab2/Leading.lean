import Mathlib.Data.List.Chain
import GroupComm.Lab2.Views

/-!
# A leader and its followers

The runs in which one process leads, forever, and handles one change at a time (`Stable`): joins
of peers that are not in its group, and reports of its failure detector.  Followers crash, start
again and lag behind as they like.

* `Process.Leading` is what the leader keeps by itself.
* `Gathered` says that all others are followers, with one connection at most, to the leader.
-/

namespace GroupComm.Lab2

open MembershipService World Transition

/-- What the main thread of process `i` may do at a place when process `L` alone leads. -/
def World.MayRun (L : ProcId) (s : World) (i : ProcId) : MainState → Prop
  | .findLeader [] => i = L
  | .accept => (s.processes i).detector = none ∧ ∀ client ∈ (s.backlog i).head?,
      (s.processes (s.owner client.peer)).me ∉ (s.processes i).service.alivePeers
  | _ => True

/-- Process `L` alone leads, handles one change at a time and does not stop. -/
def Stable (hosts : List PeerId) (L : ProcId) (s : World) (e : Event) : Prop :=
  (match e with
    | .tick i order => (s.processes i).startsDeletion order = true →
        i = L ∧ (s.processes i).operation .main = none
    | .run i .main => s.MayRun L i (s.processes i).main
    | _ => True) ∧
  ∀ s' ∈ s.step hosts e, (s.processes L).running = true → (s'.processes L).running = true

instance decidableMayRun (L : ProcId) (s : World) (i : ProcId) : DecidablePred (s.MayRun L i)
  | .findLeader [] => inferInstanceAs (Decidable (i = L))
  | .accept => inferInstanceAs (Decidable (_ ∧ _))
  | .findLeader (_ :: _) => .isTrue trivial
  | .startAsLeader => .isTrue trivial
  | .addPeer _ => .isTrue trivial
  | .startAsFollower => .isTrue trivial
  | .sendOkMsg => .isTrue trivial
  | .waitForLeaderCrash => .isTrue trivial
  | .handleLeaderCrash => .isTrue trivial
  | .sendNewLeaderMsg _ _ _ => .isTrue trivial
  | .introduce _ _ _ _ _ => .isTrue trivial
  | .waitForPendingRequestMsg _ _ => .isTrue trivial
  | .completeRequest _ => .isTrue trivial
  | .waitForNewLeaderMsg => .isTrue trivial
  | .greet _ => .isTrue trivial
  | .sendPendingRequestMsg => .isTrue trivial
  | .stopped => .isTrue trivial

instance decidableStable (hosts : List PeerId) (L : ProcId) (s : World) :
    ∀ e, Decidable (Stable hosts L s e)
  | .start _ => inferInstanceAs (Decidable (True ∧ _))
  | .crash _ => inferInstanceAs (Decidable (True ∧ _))
  | .heartBeat _ _ => inferInstanceAs (Decidable (True ∧ _))
  | .tick _ _ => inferInstanceAs (Decidable ((_ → _ ∧ _) ∧ _))
  | .fail _ _ => inferInstanceAs (Decidable (True ∧ _))
  | .run _ .detector => inferInstanceAs (Decidable (True ∧ _))
  | .run i .main => inferInstanceAs (Decidable (s.MayRun L i (s.processes i).main ∧ _))

/-- The last change of peer `p` is its addition. -/
def Process.HasJoined (pr : Process) (p : PeerId) : Prop :=
  (pr.changes.filter fun change => decide (change.1 = p)).getLast? = some (p, .ADD)

/-- A view has been made that adds the peer at this connection. -/
def World.Admitted (s : World) (k : Socket) : Prop :=
  ∃ creation ∈ s.views, creation.added = some k

/-- What the followers of process `L` have installed. -/
structure Agreement (L : ProcId) (s : World) : Prop where
  own : (s.processes L).installed = s.views.map Creation.view
  /-- A follower installs the views of the leader from the one that adds it on. -/
  segment : ∀ i ≠ L, (s.processes i).installed ≠ [] → ∃ (n : ℕ) (creation : Creation)
    (k : Socket), s.views[n]? = some creation ∧ creation.added = some k ∧ s.owner k.peer = i ∧
      (s.processes i).installed <+: (s.processes L).installed.drop n
  consecutive : ∀ i ≠ L, (s.processes i).installed.IsChain fun v v' => v'.viewId = v.viewId + 1
  members : ∀ i ≠ L, ∀ v ∈ (s.processes i).installed,
    (s.processes i).me ∈ v.members ∧ (s.processes L).me ∈ v.members
  joined : ∀ p, p ∈ (s.processes L).service.getGroupMembers (s.processes L).me ↔
    p = (s.processes L).me ∨ (s.processes L).HasJoined p

/-! ## What the leader keeps -/

/-- The places of the leader, before and after it has found out. -/
def MainState.heads : MainState → Bool
  | findLeader _ => true
  | startAsLeader => true
  | accept => true
  | addPeer _ => true
  | stopped => true
  | _ => false

namespace Process

/-- The main thread is about to add peer `p`. -/
def Joins (pr : Process) (p : PeerId) : Prop :=
  ∃ operation, pr.operation .main = some operation ∧ operation.change = some (p, .ADD)

structure Leading (pr : Process) : Prop where
  place : pr.main.heads = true
  steady : pr.Steady
  early : pr.main.listening = false → ∀ p, pr.service.tcpClientMap p = none
  alive : ∀ p ∈ pr.service.alivePeers, pr.service.tcpClientMap p ≠ none
  connected : ∀ p, pr.service.tcpClientMap p ≠ none → p ∈ pr.service.alivePeers ∨ pr.Joins p
  joining : ∀ p, pr.Joins p → p ∉ pr.service.alivePeers ∧ pr.service.tcpClientMap p ≠ none
  adds : ∀ operation change, pr.operation .main = some operation →
    operation.change = some change → change.2 = .ADD
  latest : ∀ v, pr.installed.getLast? = some v → v.viewId = pr.service.viewId
  joined : ∀ p, p ∈ pr.service.alivePeers ↔ pr.HasJoined p

theorem hasJoined_append {pr : Process} (next : Process) {q : PeerId}
    {operationType : OperationTypeEnum}
    (changes : next.changes = pr.changes ++ [(q, operationType)]) (p : PeerId) :
    next.HasJoined p ↔ if p = q then operationType = .ADD else pr.HasJoined p := by
  unfold HasJoined
  rw [changes, List.filter_append]
  split
  · rename_i same
    subst same
    simp
  · rename_i other
    have apart : ¬ q = p := fun same => other same.symm
    simp [apart]

/-- The two threads of the leader: what a place means for the other fields. -/
theorem Leading.operation_cases {pr : Process} (h : pr.Leading) {t : Thread}
    {operation : Operation} (place : pr.operation t = some operation) :
    t = .main ∧ pr.main = .addPeer operation ∨ t = .detector ∧ pr.detector = some operation := by
  rcases Process.operation_cases place with main | ⟨_, main⟩ | detector
  · exact Or.inl main
  · have heads := h.place
    rw [main] at heads
    cases heads
  · exact Or.inr detector

theorem joins_setOperation {pr data : Process} {t : Thread} {operation next : Operation}
    (place : pr.operation t = some operation) (main : data.main = pr.main)
    (detector : data.detector = pr.detector) (change : next.change = operation.change)
    (p : PeerId) : (data.setOperation next t).Joins p ↔ pr.Joins p := by
  unfold Joins
  rw [operation_setOperation place main detector]
  split
  · rename_i same
    rw [same, place]
    constructor
    · rintro ⟨_, here, adds⟩
      cases here
      exact ⟨operation, rfl, change ▸ adds⟩
    · rintro ⟨_, here, adds⟩
      cases here
      exact ⟨next, rfl, change.trans adds⟩
  · exact Iff.rfl

/-- A thread goes on in `modifyGroupMembership` and leaves the group alone. -/
theorem Leading.goOn {pr data : Process} (h : pr.Leading) {t : Thread}
    {operation next : Operation} (place : pr.operation t = some operation)
    (steady : (data.setOperation next t).Steady) (change : next.change = operation.change)
    (main : data.main = pr.main) (detector : data.detector = pr.detector)
    (installed : data.installed = pr.installed) (changes : data.changes = pr.changes)
    (viewId : data.service.viewId = pr.service.viewId)
    (alivePeers : data.service.alivePeers = pr.service.alivePeers)
    (tcpClientMap : data.service.tcpClientMap = pr.service.tcpClientMap) :
    (data.setOperation next t).Leading := by
  have moved := operation_setOperation place main detector next
  have heads : (data.setOperation next t).main.heads = true ∧
      (data.setOperation next t).main.listening = pr.main.listening := by
    rcases h.operation_cases place with ⟨rfl, here⟩ | ⟨rfl, here⟩
    · rw [setOperation_addPeer (main.trans here), here]
      exact ⟨rfl, rfl⟩
    · exact ⟨(congrArg MainState.heads main).trans h.place, congrArg MainState.listening main⟩
  have operations : ∀ operation', (data.setOperation next t).operation .main = some operation' →
      ∃ before, pr.operation .main = some before ∧ operation'.change = before.change := by
    intro operation' here
    rw [moved] at here
    split at here
    · rename_i same
      cases here
      exact ⟨operation, same ▸ place, change⟩
    · exact ⟨operation', here, rfl⟩
  have joins : ∀ p, (data.setOperation next t).Joins p ↔ pr.Joins p :=
    joins_setOperation place main detector change
  constructor
  · exact heads.1
  · exact steady
  · rw [heads.2, service_setOperation, tcpClientMap]
    exact h.early
  · rw [service_setOperation, tcpClientMap, alivePeers]
    exact h.alive
  · rw [service_setOperation, tcpClientMap, alivePeers]
    exact fun p found => (h.connected p found).imp_right (joins p).mpr
  · rw [service_setOperation, tcpClientMap, alivePeers]
    exact fun p now => h.joining p ((joins p).mp now)
  · intro operation' change' here same
    obtain ⟨before, there, equal⟩ := operations operation' here
    exact h.adds before change' there (equal ▸ same)
  · rw [service_setOperation, installed_setOperation, installed, viewId]
    exact h.latest
  · unfold HasJoined
    rw [service_setOperation, changes_setOperation, alivePeers, changes]
    exact h.joined

theorem not_joins_of_idle {pr : Process} (idle : pr.operation .main = none) (p : PeerId) :
    ¬ pr.Joins p := by
  rintro ⟨_, here, _⟩
  rw [idle] at here
  cases here

/-- The main thread is outside `modifyGroupMembership`, and the group is as it was. -/
theorem Leading.of_idle {pr next : Process} (h : pr.Leading) (nobody : ∀ p, ¬ pr.Joins p)
    (idle : next.operation .main = none) (heads : next.main.heads = true) (steady : next.Steady)
    (early : next.main.listening = false → pr.main.listening = false)
    (latest : ∀ v, next.installed.getLast? = some v → v.viewId = next.service.viewId)
    (changes : next.changes = pr.changes)
    (alivePeers : next.service.alivePeers = pr.service.alivePeers)
    (tcpClientMap : next.service.tcpClientMap = pr.service.tcpClientMap) : next.Leading := by
  constructor
  · exact heads
  · exact steady
  · rw [tcpClientMap]
    exact fun deaf => h.early (early deaf)
  · rw [tcpClientMap, alivePeers]
    exact h.alive
  · rw [tcpClientMap, alivePeers]
    exact fun p found => Or.inl ((h.connected p found).resolve_right (nobody p))
  · exact fun p joins => absurd joins (not_joins_of_idle idle p)
  · intro operation change here
    rw [idle] at here
    cases here
  · exact latest
  · unfold HasJoined
    rw [alivePeers, changes]
    exact h.joined

/-- The first block of a deletion. -/
theorem Leading.beginDeletion {pr : Process} (h : pr.Leading) {m : RequestMsg}
    (place : pr.detector = some (.lock m)) (deletes : m.operationType = .DEL)
    (steady : ((pr.beginOperation m).setOperation (.sendRequestMsg m
      (pr.beginOperation m).service.alivePeers.toList) .detector).Steady) :
    ((pr.beginOperation m).setOperation (.sendRequestMsg m
      (pr.beginOperation m).service.alivePeers.toList) .detector).Leading := by
  have idle : pr.operation .main = none := h.steady.alone (t := .detector) place
  have service : (pr.beginOperation m).service =
      { pr.service with
        tcpClientMap := Function.update pr.service.tcpClientMap m.peerId none
        alivePeers := pr.service.alivePeers.erase m.peerId } := if_pos deletes
  have changes : (pr.beginOperation m).changes = pr.changes ++ [(m.peerId, .DEL)] :=
    if_pos deletes
  have alivePeers : (pr.beginOperation m).service.alivePeers =
      pr.service.alivePeers.erase m.peerId := by rw [service]
  have found : ∀ p, (pr.beginOperation m).service.tcpClientMap p ≠ none ↔
      p ≠ m.peerId ∧ pr.service.tcpClientMap p ≠ none := by
    intro p
    rw [service]
    dsimp only
    rw [Function.update_apply]
    split
    · rename_i same
      simp [same]
    · rename_i other
      simp [other]
  constructor
  · exact h.place
  · exact steady
  · intro deaf p
    by_contra missing
    exact ((found p).mp missing).2 (h.early deaf p)
  · intro p mem
    change p ∈ (pr.beginOperation m).service.alivePeers at mem
    rw [alivePeers, OrderedSet.mem_erase] at mem
    exact (found p).mpr ⟨mem.2, h.alive p mem.1⟩
  · intro p connected
    obtain ⟨other, before⟩ := (found p).mp connected
    left
    change p ∈ (pr.beginOperation m).service.alivePeers
    rw [alivePeers, OrderedSet.mem_erase]
    exact ⟨(h.connected p before).resolve_right (not_joins_of_idle idle p), other⟩
  · exact fun p joins => absurd joins (not_joins_of_idle idle p)
  · intro operation change here
    change pr.operation .main = _ at here
    rw [idle] at here
    cases here
  · intro v last
    change v.viewId = (pr.beginOperation m).service.viewId
    rw [service]
    exact h.latest v last
  · intro p
    have now := hasJoined_append ((pr.beginOperation m).setOperation (.sendRequestMsg m
      (pr.beginOperation m).service.alivePeers.toList) .detector) changes p
    rw [now]
    change p ∈ (pr.beginOperation m).service.alivePeers ↔ _
    rw [alivePeers, OrderedSet.mem_erase, h.joined p]
    split
    · rename_i same
      exact ⟨fun both => absurd same both.2, fun adds => by cases adds⟩
    · rename_i other
      exact ⟨And.left, fun joined => ⟨joined, other⟩⟩

/-- Nobody is added from a place after the new view. -/
theorem Steady.not_joins {pr : Process} (steady : pr.Steady) {t : Thread}
    {operation next : Operation} (place : pr.operation t = some operation) (data : Process)
    (main : data.main = pr.main) (detector : data.detector = pr.detector)
    (change : next.change = none) (p : PeerId) : ¬ (data.setOperation next t).Joins p := by
  rintro ⟨_, here, adds⟩
  rw [operation_setOperation place main detector] at here
  split at here
  · cases here
    rw [change] at adds
    cases adds
  · rename_i other
    rw [Thread.eq_other other, steady.alone place] at here
    cases here

/-- The new view is made. -/
theorem Leading.endOperation {pr : Process} (h : pr.Leading) {t : Thread} {m : RequestMsg}
    (place : pr.operation t = some (.waitForOkMsg m []))
    (deletes : t = .detector → m.operationType = .DEL)
    (steady : ((pr.endOperation m).setOperation .printNewlyInstalledView t).Steady) :
    ((pr.endOperation m).setOperation .printNewlyInstalledView t).Leading := by
  have moved : ((pr.endOperation m).setOperation .printNewlyInstalledView t).operation .main =
      if .main = t then some .printNewlyInstalledView else pr.operation .main :=
    operation_setOperation place (show (pr.endOperation m).main = pr.main from rfl) rfl _ _
  have nobody : ∀ p, ¬ ((pr.endOperation m).setOperation .printNewlyInstalledView t).Joins p :=
    h.steady.not_joins place (pr.endOperation m) rfl rfl rfl
  have joins : ∀ p, pr.Joins p ↔ t = .main ∧ p = m.peerId := by
    intro p
    constructor
    · rintro ⟨operation, here, adds⟩
      cases t with
      | main =>
          rw [place] at here
          cases here
          exact ⟨rfl, (congrArg Prod.fst (Option.some.inj adds)).symm⟩
      | detector =>
          have alone : pr.operation .main = none := h.steady.alone place
          rw [alone] at here
          cases here
    · rintro ⟨rfl, rfl⟩
      have adds : m.operationType = .ADD := h.adds _ (m.peerId, m.operationType) place rfl
      refine ⟨_, place, ?_⟩
      rw [← adds]
      rfl
  have added : m.operationType = .ADD ↔ t = .main := by
    constructor
    · intro adds
      cases t with
      | main => rfl
      | detector =>
          rw [deletes rfl] at adds
          cases adds
    · rintro rfl
      exact h.adds _ (m.peerId, m.operationType) place rfl
  have alivePeers : ∀ p, p ∈ (pr.endOperation m).service.alivePeers ↔
      t = .main ∧ p = m.peerId ∨ p ∈ pr.service.alivePeers := by
    intro p
    change p ∈ (if m.operationType = .ADD then _ else _) ↔ _
    split
    · rename_i adds
      rw [OrderedSet.mem_insert]
      exact ⟨Or.imp_left fun same => ⟨added.mp adds, same⟩, Or.imp_left And.right⟩
    · rename_i other
      exact ⟨Or.inr, fun mem => mem.resolve_left fun both => other (added.mpr both.1)⟩
  constructor
  · rcases h.operation_cases place with ⟨rfl, here⟩ | ⟨rfl, here⟩
    · have ending : (pr.endOperation m).main = .addPeer (.waitForOkMsg m []) := here
      rw [setOperation_addPeer ending]
      rfl
    · exact h.place
  · exact steady
  · intro deaf
    rw [service_setOperation]
    apply h.early
    rcases h.operation_cases place with ⟨rfl, here⟩ | ⟨rfl, here⟩
    · have ending : (pr.endOperation m).main = .addPeer (.waitForOkMsg m []) := here
      rw [setOperation_addPeer ending] at deaf
      cases deaf
    · exact deaf
  · intro p mem
    rw [service_setOperation] at mem ⊢
    rcases (alivePeers p).mp mem with new | before
    · exact (h.joining p ((joins p).mpr new)).2
    · exact h.alive p before
  · intro p found
    rw [service_setOperation] at found ⊢
    left
    rw [alivePeers]
    exact (h.connected p found).symm.imp_left (joins p).mp
  · exact fun p now => absurd now (nobody p)
  · intro operation change here same
    rw [moved] at here
    split at here
    · cases here
      cases same
    · rename_i other
      rw [Thread.eq_other other, h.steady.alone place] at here
      cases here
  · intro v last
    rw [service_setOperation]
    rw [installed_setOperation] at last
    have now := upToDate_install { pr with
      service := pr.service.endModification m.peerId m.operationType
      changes := if m.operationType = .ADD then pr.changes ++ [(m.peerId, .ADD)] else pr.changes }
    have same : (pr.endOperation m).installed.getLast? =
      some ((pr.endOperation m).service.installedView pr.me) := now
    rw [same] at last
    cases last
    rfl
  · intro p
    rw [service_setOperation, alivePeers, h.joined p]
    by_cases adds : m.operationType = .ADD
    · have changes : (pr.endOperation m).changes = pr.changes ++ [(m.peerId, .ADD)] := if_pos adds
      rw [hasJoined_append ((pr.endOperation m).setOperation .printNewlyInstalledView t)
        ((changes_setOperation _ _ _).trans changes)]
      have main := added.mp adds
      split
      · rename_i same
        exact ⟨fun _ => rfl, fun _ => Or.inl ⟨main, same⟩⟩
      · rename_i other
        exact ⟨fun mem => mem.resolve_left fun both => other both.2, Or.inr⟩
    · have changes : (pr.endOperation m).changes = pr.changes := if_neg adds
      have same : ((pr.endOperation m).setOperation .printNewlyInstalledView t).HasJoined p ↔
          pr.HasJoined p := by
        unfold HasJoined
        rw [changes_setOperation, changes]
      rw [same]
      exact ⟨fun mem => mem.resolve_left fun both => adds (added.mpr both.1), Or.inr⟩

/-- A peer is accepted that is not in the group. -/
theorem Leading.accept {pr : Process} (h : pr.Leading) (place : pr.main = .accept)
    {client : Socket} {newPeerId : PeerId} (idle : pr.detector = none)
    (outside : newPeerId ∉ pr.service.alivePeers) :
    Leading
      { pr with
        service := pr.service.insertClient newPeerId client
        main := .addPeer (.call newPeerId .ADD) } ∧
      ∀ p, (pr.service.insertClient newPeerId client).tcpClientMap p =
        if p = newPeerId then some client else pr.service.tcpClientMap p := by
  have before : pr.operation .main = none := operation_of_idle (by rw [place]; rfl)
  have missing : pr.service.tcpClientMap newPeerId = none := by
    by_contra found
    rcases h.connected newPeerId found with member | joins
    · exact outside member
    · exact not_joins_of_idle before _ joins
  have tcpClientMap : ∀ p, (pr.service.insertClient newPeerId client).tcpClientMap p =
      if p = newPeerId then some client else pr.service.tcpClientMap p := by
    intro p
    unfold insertClient
    dsimp only
    rw [Function.update_apply, missing]
    rfl
  have joins : ∀ p, Joins
      { pr with
        service := pr.service.insertClient newPeerId client
        main := .addPeer (.call newPeerId .ADD) } p ↔ p = newPeerId := by
    intro p
    constructor
    · rintro ⟨_, here, adds⟩
      cases here
      cases adds
      rfl
    · rintro rfl
      exact ⟨_, rfl, rfl⟩
  refine ⟨⟨rfl, ?_, ?_, ?_, ?_, ?_, ?_, h.latest, h.joined⟩, tcpClientMap⟩
  · refine .of_call idle ?_
    intro operation here
    cases here
    exact trivial
  · intro deaf
    cases deaf
  · intro p mem
    change (pr.service.insertClient newPeerId client).tcpClientMap p ≠ none
    rw [tcpClientMap]
    split
    · exact Option.some_ne_none _
    · exact h.alive p mem
  · intro p found
    change (pr.service.insertClient newPeerId client).tcpClientMap p ≠ none at found
    rw [tcpClientMap] at found
    split at found
    · rename_i same
      exact Or.inr ((joins p).mpr same)
    · exact Or.inl ((h.connected p found).resolve_right (not_joins_of_idle before p))
  · intro p now
    have same := (joins p).mp now
    subst same
    refine ⟨outside, ?_⟩
    change (pr.service.insertClient p client).tcpClientMap p ≠ none
    rw [tcpClientMap, if_pos rfl]
    exact Option.some_ne_none _
  · intro operation change here same
    cases here
    cases same
    rfl

theorem Leading.finishOperation {pr : Process} (h : pr.Leading) {t : Thread} {m : NewViewMsg}
    (place : pr.operation t = some (.deliver m [])) : (pr.finishOperation t).Leading := by
  have steady := h.steady.finishOperation place
  rcases h.operation_cases place with ⟨rfl, here⟩ | ⟨rfl, here⟩
  · rw [finishOperation_addPeer here] at steady ⊢
    refine h.of_idle ?_ rfl rfl steady (fun deaf => by cases deaf) h.latest rfl rfl rfl
    rintro p ⟨_, there, adds⟩
    rw [place] at there
    cases there
    cases adds
  · have idle : pr.operation .main = none := h.steady.alone (t := .detector) place
    exact h.of_idle (not_joins_of_idle idle) idle h.place steady id h.latest rfl rfl rfl

/-- Only what the failure detector knows and does has changed. -/
theorem Leading.of_quiet {pr next : Process} (h : pr.Leading) (steady : next.Steady)
    (main : next.main = pr.main) (installed : next.installed = pr.installed)
    (changes : next.changes = pr.changes) (viewId : next.service.viewId = pr.service.viewId)
    (alivePeers : next.service.alivePeers = pr.service.alivePeers)
    (tcpClientMap : next.service.tcpClientMap = pr.service.tcpClientMap) : next.Leading := by
  have operation : next.operation .main = pr.operation .main := by
    unfold operation
    rw [main]
  have joins : ∀ p, next.Joins p ↔ pr.Joins p := by
    intro p
    unfold Joins
    rw [operation]
  constructor
  · rw [main]
    exact h.place
  · exact steady
  · rw [main, tcpClientMap]
    exact h.early
  · rw [alivePeers, tcpClientMap]
    exact h.alive
  · rw [alivePeers, tcpClientMap]
    exact fun p found => (h.connected p found).imp_right (joins p).mpr
  · rw [alivePeers, tcpClientMap]
    exact fun p now => h.joining p ((joins p).mp now)
  · rw [operation]
    exact h.adds
  · rw [installed, viewId]
    exact h.latest
  · unfold HasJoined
    rw [alivePeers, changes]
    exact h.joined

theorem Leading.tick {pr : Process} (h : pr.Leading) {order : List PeerId}
    (idle : pr.startsDeletion order = true → pr.main.idle = true) : (pr.tick order).Leading := by
  have steady := h.steady.tick idle
  obtain ⟨_, _, _, _, same⟩ := pr.tick_eq order
  rw [same] at steady ⊢
  exact h.of_quiet steady rfl rfl rfl rfl rfl rfl

theorem Leading.fresh {pr : Process} (service : pr.service = {}) (installed : pr.installed = [])
    (changes : pr.changes = []) (detector : pr.detector = none)
    (operation : pr.operation .main = none) (heads : pr.main.heads = true) : pr.Leading := by
  constructor
  · exact heads
  · exact .of_idle operation detector
  · intro _ _
    rw [service]
  · intro p mem
    rw [service] at mem
    exact absurd mem (OrderedSet.notMem_empty p)
  · intro p found
    rw [service] at found
    exact absurd rfl found
  · exact fun p joins => absurd joins (not_joins_of_idle operation p)
  · intro _ _ here
    rw [operation] at here
    cases here
  · intro v last
    rw [installed] at last
    cases last
  · intro p
    unfold HasJoined
    rw [service, changes]
    exact ⟨fun mem => absurd mem (OrderedSet.notMem_empty p), fun last => by cases last⟩

end Process

open Process

/-- **What a leader keeps** in every step that it survives. -/
theorem ThreadStep.leading {pr next : Process} {t : Thread} {label : Label}
    (step : ThreadStep pr t label next) (h : pr.Leading) (sound : pr.Sound)
    (running : next.running = true) (notConnected : ∀ p k, label ≠ .connected p k)
    (joins : ∀ close k p, label = .accepted close k p →
      pr.detector = none ∧ p ∉ pr.service.alivePeers) : next.Leading := by
  have steady : next.Steady := by
    apply step.steady h.steady
    rintro (⟨k, p, connected⟩ | ⟨close, k, p, accepted⟩)
    · exact absurd connected (notConnected p k)
    · exact (joins close k p accepted).1
  have elsewhere {place : MainState} (here : pr.main = place) (other : place.heads = false) :
      False := by
    have heads := h.place
    rw [here, other] at heads
    cases heads
  have searching {place : MainState} (here : pr.main = place) (idle : place.idle = true)
      (deaf : place.listening = false) (operation : next.operation .main = none)
      (latest : ∀ v, next.installed.getLast? = some v → v.viewId = next.service.viewId)
      (heads : next.main.heads = true) (changes : next.changes = pr.changes)
      (alivePeers : next.service.alivePeers = pr.service.alivePeers)
      (tcpClientMap : next.service.tcpClientMap = pr.service.tcpClientMap) : next.Leading := by
    have before : pr.operation .main = none := operation_of_idle (by rw [here]; exact idle)
    exact h.of_idle (not_joins_of_idle before) operation heads steady
      (fun _ => by rw [here]; exact deaf) latest changes alivePeers tcpClientMap
  cases step with
  | dies _ => cases running
  | call place => exact h.goOn place steady rfl rfl rfl rfl rfl rfl rfl rfl
  | @lock t m place free =>
      by_cases deletes : m.operationType = .DEL
      · rcases h.operation_cases place with ⟨rfl, here⟩ | ⟨rfl, here⟩
        · have adds := h.adds _ (m.peerId, m.operationType) place rfl
          rw [deletes] at adds
          cases adds
        · exact h.beginDeletion here deletes steady
      · have service : (pr.beginOperation m).service = pr.service := if_neg deletes
        exact h.goOn place steady rfl rfl rfl rfl (if_neg deletes) (by rw [service])
          (by rw [service]) (by rw [service])
  | sendRequestMsg place found => exact h.goOn place steady rfl rfl rfl rfl rfl rfl rfl rfl
  | requestsSent place => exact h.goOn place steady rfl rfl rfl rfl rfl rfl rfl rfl
  | waitForOkMsg place found expected =>
      exact h.goOn place steady rfl rfl rfl rfl rfl rfl rfl rfl
  | @newView t m place =>
      refine h.endOperation place ?_ steady
      rintro rfl
      exact sound.deletes _ place (m.peerId, m.operationType) rfl
  | printNewlyInstalledView place free =>
      exact h.goOn place steady rfl rfl rfl rfl rfl rfl rfl rfl
  | sendNewViewMsg place => exact h.goOn place steady rfl rfl rfl rfl rfl rfl rfl rfl
  | lockView place free => exact h.goOn place steady rfl rfl rfl rfl rfl rfl rfl rfl
  | deliver place found => exact h.goOn place steady rfl rfl rfl rfl rfl rfl rfl rfl
  | delivered place => exact h.finishOperation place
  | skipMyself place => exact searching place rfl rfl rfl h.latest rfl rfl rfl rfl
  | leaderFound place other => exact absurd rfl (notConnected _ _)
  | noLeaderThere place other => exact searching place rfl rfl rfl h.latest rfl rfl rfl rfl
  | noLeaderFound place => exact searching place rfl rfl rfl h.latest rfl rfl rfl rfl
  | startAsLeader place free =>
      refine searching place rfl rfl rfl ?_ rfl rfl rfl rfl
      intro v last
      have now : pr.install.installed.getLast? = some (pr.service.installedView pr.me) :=
        upToDate_install pr
      change pr.install.installed.getLast? = _ at last
      rw [now] at last
      cases last
      rfl
  | accept place =>
      obtain ⟨idle, outside⟩ := joins _ _ _ rfl
      exact (h.accept place idle outside).1
  | waitForNewLeaderMsg place => exact (elsewhere place rfl).elim
  | followerReceives place _ _ => exact (elsewhere place rfl).elim
  | leaderLost place _ => exact (elsewhere place rfl).elim
  | sendOkMsg place _ => exact (elsewhere place rfl).elim
  | okMsgFailed place _ => exact (elsewhere place rfl).elim
  | waitForLeaderCrash place _ => exact (elsewhere place rfl).elim
  | handleLeaderCrash place _ => exact (elsewhere place rfl).elim
  | reconnect place => exact (elsewhere place rfl).elim
  | unreachable place => exact (elsewhere place rfl).elim
  | reconnected place => exact (elsewhere place rfl).elim
  | introduce place => exact (elsewhere place rfl).elim
  | introduceFailed place => exact (elsewhere place rfl).elim
  | pendingRequest place _ => exact (elsewhere place rfl).elim
  | notConnected place _ => exact (elsewhere place rfl).elim
  | completeRequest place _ => exact (elsewhere place rfl).elim
  | nothingPending place _ => exact (elsewhere place rfl).elim
  | greet place => exact (elsewhere place rfl).elim
  | sendPendingRequestMsg place _ => exact (elsewhere place rfl).elim

/-- The leader is idle outside `modifyGroupMembership`. -/
theorem Process.idle_of_heads {pr : Process} (heads : pr.main.heads = true)
    (running : pr.running = true) (outside : pr.operation .main = none) : pr.main.idle = true := by
  cases main : pr.main
  case addPeer operation =>
    rw [Process.operation, main] at outside
    cases outside
  case stopped =>
    rw [Process.running, main] at running
    cases running
  case findLeader rest => rfl
  case startAsLeader => rfl
  case accept => rfl
  all_goals
    rw [main] at heads
    cases heads

/-! ## The followers -/

/-- The places of a process that joins a group, up to its end. -/
def MainState.joins : MainState → Bool
  | findLeader _ => true
  | startAsFollower => true
  | sendOkMsg => true
  | stopped => true
  | _ => false

theorem Label.created_of_fatal {label : Label} (fatal : label.fatal) : label.created = [] := by
  cases label with
  | silent created => exact fatal
  | failed client m => rfl
  | received client m => rfl
  | lost client => rfl
  | sent client m => cases fatal
  | connected peer client => cases fatal
  | refused peer => cases fatal
  | accepted close client peer => cases fatal

/-- The connection on which the step has met the end of the other process. -/
def Label.broken : Label → Option Socket
  | failed client _ => some client
  | lost client => some client
  | _ => none

/-- What a follower does that does not lose its leader, and does not give up looking for one. -/
structure Process.Follows (pr next : Process) (label : Label) : Prop where
  joins : next.main.joins = true
  idle : next.detector = none
  made : label.created = []
  searches : ∀ rest, next.main = .findLeader rest → ∃ rest', pr.main = .findLeader rest'

theorem ThreadStep.follows_leader {pr next : Process} {t : Thread} {label : Label}
    (step : ThreadStep pr t label next) (place : pr.main.joins = true) (idle : pr.detector = none)
    (searches : ∀ created, label = .silent created → t = .main → pr.main ≠ .findLeader [])
    (reached : ∀ p k, pr.service.tcpClientMap p = some k →
      label ≠ .lost k ∧ ∀ m, label ≠ .failed k m) : pr.Follows next label := by
  have elsewhere {main : MainState} (here : pr.main = main) (other : main.joins = false) :
      False := by
    rw [here, other] at place
    cases place
  have outside {t : Thread} {operation : Operation} (here : pr.operation t = some operation) :
      False := by
    rcases operation_cases here with ⟨_, main⟩ | ⟨_, main⟩ | ⟨_, detector⟩
    · exact elsewhere main rfl
    · exact elsewhere main rfl
    · rw [idle] at detector
      cases detector
  cases step with
  | dies fatal =>
      exact ⟨rfl, rfl, Label.created_of_fatal fatal, fun _ main => by cases main⟩
  | call here => exact (outside here).elim
  | lock here _ => exact (outside here).elim
  | sendRequestMsg here _ => exact (outside here).elim
  | requestsSent here => exact (outside here).elim
  | waitForOkMsg here _ _ => exact (outside here).elim
  | newView here => exact (outside here).elim
  | printNewlyInstalledView here _ => exact (outside here).elim
  | sendNewViewMsg here => exact (outside here).elim
  | lockView here _ => exact (outside here).elim
  | deliver here _ => exact (outside here).elim
  | delivered here => exact (outside here).elim
  | skipMyself here => exact ⟨rfl, idle, rfl, fun _ _ => ⟨_, here⟩⟩
  | leaderFound here other => exact ⟨rfl, idle, rfl, fun _ main => by cases main⟩
  | noLeaderThere here other => exact ⟨rfl, idle, rfl, fun _ _ => ⟨_, here⟩⟩
  | noLeaderFound here => exact absurd here (searches _ rfl rfl)
  | startAsLeader here _ => exact (elsewhere here rfl).elim
  | accept here => exact (elsewhere here rfl).elim
  | @followerReceives k m here found free =>
      cases m with
      | request m => exact ⟨rfl, idle, rfl, fun _ main => by cases main⟩
      | newView m => exact ⟨place, idle, rfl, fun rest main => ⟨rest, main⟩⟩
      | ok m => exact ⟨rfl, rfl, rfl, fun _ main => by cases main⟩
      | newLeader m => exact ⟨rfl, rfl, rfl, fun _ main => by cases main⟩
  | leaderLost here found => exact absurd rfl (reached _ _ found).1
  | sendOkMsg here found => exact ⟨rfl, idle, rfl, fun _ main => by cases main⟩
  | okMsgFailed here found => exact absurd rfl ((reached _ _ found).2 _)
  | waitForLeaderCrash here _ => exact (elsewhere here rfl).elim
  | handleLeaderCrash here _ => exact (elsewhere here rfl).elim
  | reconnect here => exact (elsewhere here rfl).elim
  | unreachable here => exact (elsewhere here rfl).elim
  | reconnected here => exact (elsewhere here rfl).elim
  | introduce here => exact (elsewhere here rfl).elim
  | introduceFailed here => exact (elsewhere here rfl).elim
  | pendingRequest here _ => exact (elsewhere here rfl).elim
  | notConnected here _ => exact (elsewhere here rfl).elim
  | completeRequest here _ => exact (elsewhere here rfl).elim
  | nothingPending here _ => exact (elsewhere here rfl).elim
  | waitForNewLeaderMsg here => exact (elsewhere here rfl).elim
  | greet here => exact (elsewhere here rfl).elim
  | sendPendingRequestMsg here _ => exact (elsewhere here rfl).elim

/-- Every process but `L` is a follower, with one connection at most, to `L`. -/
structure Gathered (L : ProcId) (s : World) : Prop where
  others : ∀ i ≠ L, (s.processes i).main.joins = true ∧ (s.processes i).detector = none
  ends : ∀ k : Socket, k.connection < s.opened → (s.owner k = L ↔ k.connector = false)
  up : 0 < s.opened → (s.processes L).running = true
  unreset : ∀ k, s.reset k = false
  single : ∀ k k' : Socket, k.connection < s.opened → k'.connection < s.opened →
    s.owner k ≠ L → s.owner k' = s.owner k → k' = k
  searching : ∀ i ≠ L, ∀ rest, (s.processes i).main = .findLeader rest →
    ∀ k : Socket, k.connection < s.opened → s.owner k ≠ i
  source : ∀ i ≠ L, (s.processes i).installed ≠ [] →
    ∃ k : Socket, k.connection < s.opened ∧ s.owner k = i

namespace Gathered

variable {L : ProcId} {s s' : World} {i : ProcId} {next : Process}

theorem init : Gathered L {} where
  others _ _ := ⟨rfl, rfl⟩
  ends _ less := absurd less (Nat.not_lt_zero _)
  up some := absurd some (Nat.not_lt_zero _)
  unreset _ := rfl
  single _ _ less := absurd less (Nat.not_lt_zero _)
  searching _ _ _ main := by cases main
  source _ _ some := absurd rfl some

/-- The leader listens alone. -/
theorem listener (h : Gathered L s) {j : ProcId}
    (listening : (s.processes j).main.listening = true) : j = L := by
  by_contra other
  have joins := (h.others j other).1
  revert listening joins
  cases (s.processes j).main <;> simp [MainState.listening, MainState.joins]

/-- At the other end of a follower is the leader. -/
theorem owner_peer (h : Gathered L s) {k : Socket} (less : k.connection < s.opened)
    (own : s.owner k ≠ L) : s.owner k.peer = L := by
  rw [h.ends k.peer less]
  have connector := mt (h.ends k less).mpr own
  rw [Bool.not_eq_false] at connector
  change (!k.connector) = false
  rw [connector]
  rfl

/-- A follower is not cut off from the leader. -/
theorem not_ended (h : Gathered L s) {k : Socket} (less : k.connection < s.opened)
    (own : s.owner k ≠ L) : s.ended k.peer = false := by
  unfold World.ended
  rw [h.unreset, h.owner_peer less own, h.up (Nat.zero_lt_of_lt less)]
  rfl

/-- One process changes. -/
theorem replace (h : Gathered L s) (processes : s'.processes = Function.update s.processes i next)
    (owner : s'.owner = s.owner) (opened : s'.opened = s.opened) (reset : s'.reset = s.reset)
    (up : (s.processes L).running = true → (s'.processes L).running = true)
    (other : i ≠ L → next.main.joins = true ∧ next.detector = none ∧
      (∀ rest, next.main = .findLeader rest →
        ∀ k : Socket, k.connection < s.opened → s.owner k ≠ i) ∧
      (next.installed ≠ [] → ∃ k : Socket, k.connection < s.opened ∧ s.owner k = i)) :
    Gathered L s' := by
  obtain ⟨others, ends, isUp, unreset, single, searching, source⟩ := h
  have process : ∀ j, s'.processes j = if j = i then next else s.processes j := by
    intro j
    rw [processes, Function.update_apply]
  constructor
  · intro j apart
    rw [process]
    split
    · rename_i same
      obtain ⟨joins, idle, _⟩ := other (same ▸ apart)
      exact ⟨joins, idle⟩
    · exact others j apart
  · rw [owner, opened]
    exact ends
  · rw [opened]
    exact fun some => up (isUp some)
  · rw [reset]
    exact unreset
  · rw [owner, opened]
    exact single
  · intro j apart rest main
    rw [owner, opened]
    rw [process] at main
    split at main
    · rename_i same
      rw [same]
      exact (other (same ▸ apart)).2.2.1 rest main
    · exact searching j apart rest main
  · intro j apart installed
    rw [owner, opened]
    rw [process] at installed
    split at installed
    · rename_i same
      rw [same]
      exact (other (same ▸ apart)).2.2.2 installed
    · exact source j apart installed

/-- What a follower has installed after a step has come from its leader. -/
theorem installed (h : Gathered L s) (wired : Wired s) {t : Thread} {label : Label}
    (step : ThreadStep (s.processes i) t label next) (apart : i ≠ L) (made : label.created = [])
    (some : next.installed ≠ []) : ∃ k : Socket, k.connection < s.opened ∧ s.owner k = i := by
  by_cases reads : ∃ k m, label = .received k (.newView m)
  · obtain ⟨k, m, rfl⟩ := reads
    rcases step.reads_view with rfl | ⟨_, found, _⟩
    · exact h.source i apart some
    · obtain ⟨less, own, _⟩ := wired.held i _ k (Or.inl found)
      exact ⟨k, less, own⟩
  · have same := step.installed_eq fun k m here => reads ⟨k, m, here⟩
    rw [made, List.map_nil, List.append_nil] at same
    rw [same] at some
    exact h.source i apart some

/-- A follower takes a step. -/
theorem follows (h : Gathered L s) (wired : Wired s) {t : Thread} {label : Label}
    (step : ThreadStep (s.processes i) t label next) (apart : i ≠ L)
    (searches : ∀ created, label = .silent created → t = .main →
      (s.processes i).main ≠ .findLeader [])
    (ended : ∀ k ∈ label.broken, s.ended k.peer = true) : (s.processes i).Follows next label := by
  obtain ⟨place, idle⟩ := h.others i apart
  apply step.follows_leader place idle searches
  intro p k found
  obtain ⟨less, own, _⟩ := wired.held i p k (Or.inl found)
  have connected := h.not_ended less (own ▸ apart)
  refine ⟨?_, ?_⟩
  · intro lost
    rw [ended k (by rw [lost]; rfl)] at connected
    cases connected
  · intro m failed
    rw [ended k (by rw [failed]; rfl)] at connected
    cases connected

/-- A thread takes a step, without a new connection. -/
theorem thread (h : Gathered L s) (wired : Wired s) {t : Thread} {label : Label}
    (step : ThreadStep (s.processes i) t label next)
    (follows : i ≠ L → (s.processes i).Follows next label)
    (processes : s'.processes = Function.update s.processes i next) (owner : s'.owner = s.owner)
    (opened : s'.opened = s.opened) (reset : s'.reset = s.reset)
    (up : (s.processes L).running = true → (s'.processes L).running = true) : Gathered L s' := by
  refine h.replace processes owner opened reset up ?_
  intro apart
  obtain ⟨joins, idle, made, searches⟩ := follows apart
  refine ⟨joins, idle, ?_, h.installed wired step apart made⟩
  intro rest main
  obtain ⟨rest', before⟩ := searches rest main
  exact h.searching i apart rest' before

/-- A follower connects to the leader. -/
theorem connected (h : Gathered L s) {t : Thread} {peer : PeerId} {j : ProcId}
    (step : ThreadStep (s.processes i) t (.connected peer s.nextSocket) next) (apart : i ≠ L)
    (listening : (s.processes j).main.listening = true) :
    Gathered L ((s.openConnection i j).setProcess i next) := by
  obtain ⟨place, idle⟩ := h.others i apart
  have leads := h.listener listening
  subst leads
  have isUp : (s.processes j).running = true := by
    unfold Process.running
    apply decide_eq_true
    intro stopped
    rw [stopped] at listening
    cases listening
  have searched : ∃ rest, (s.processes i).main = .findLeader rest ∧
      next.main = .startAsFollower ∧ next.detector = (s.processes i).detector ∧
        next.installed = (s.processes i).installed := by
    cases step with
    | dies fatal => cases fatal
    | leaderFound here other => exact ⟨_, here, rfl, rfl, rfl⟩
    | reconnect here =>
        rw [here] at place
        cases place
  obtain ⟨rest, searched, main, detector, installed⟩ := searched
  have unknown := h.searching i apart rest searched
  obtain ⟨own, own'⟩ := Wired.owner_openConnection_next (s := s) i j
  have old : ∀ k : Socket, k.connection < s.opened →
      (s.openConnection i j).owner k = s.owner k := fun k less =>
    Wired.owner_openConnection less
  have process : ∀ l, ((s.openConnection i j).setProcess i next).processes l =
      if l = i then next else s.processes l := fun l => Function.update_apply _ _ _ _
  constructor
  · intro l other
    rw [process]
    split
    · rw [main, detector]
      exact ⟨rfl, idle⟩
    · exact h.others l other
  · intro k less
    change (s.openConnection i j).owner k = j ↔ _
    rcases Wired.socket_cases less with before | rfl | rfl
    · rw [old k before]
      exact h.ends k before
    · rw [own]
      exact ⟨fun same => absurd same apart, fun same => by cases same⟩
    · rw [own']
      exact ⟨fun _ => rfl, fun _ => rfl⟩
  · intro _
    rw [process, if_neg apart.symm]
    exact isUp
  · intro k
    change Function.update (Function.update s.reset s.nextSocket false) s.nextSocket.peer false k =
      false
    rw [Function.update_apply, Function.update_apply]
    split
    · rfl
    · split
      · rfl
      · exact h.unreset k
  · intro k k' less less' other same
    change (s.openConnection i j).owner k ≠ j at other
    change (s.openConnection i j).owner k' = (s.openConnection i j).owner k at same
    rcases Wired.socket_cases less with before | rfl | rfl
    · rw [old k before] at other same
      rcases Wired.socket_cases less' with before' | rfl | rfl
      · rw [old k' before'] at same
        exact h.single k k' before before' other same
      · rw [own] at same
        exact absurd same.symm (unknown k before)
      · rw [own'] at same
        exact absurd same.symm other
    · rw [own] at same
      rcases Wired.socket_cases less' with before' | rfl | rfl
      · rw [old k' before'] at same
        exact absurd same (unknown k' before')
      · rfl
      · rw [own'] at same
        exact absurd same.symm apart
    · exact absurd own' other
  · intro l other rest' here k less
    change (s.openConnection i j).owner k ≠ l
    rw [process] at here
    split at here
    · rw [main] at here
      cases here
    · rename_i elsewhere
      rcases Wired.socket_cases less with before | rfl | rfl
      · rw [old k before]
        exact h.searching l other rest' here k before
      · rw [own]
        exact fun same => elsewhere same.symm
      · rw [own']
        exact other.symm
  · intro l other some
    rw [process] at some
    split at some
    · rename_i here
      exact ⟨s.nextSocket, Nat.lt_succ_self _, own.trans here.symm⟩
    · obtain ⟨k, less, same⟩ := h.source l other some
      exact ⟨k, Nat.lt_succ_of_lt less, (old k less).trans same⟩

/-- A process starts. -/
theorem start (h : Gathered L s) (wired : Wired s) (p : PeerId) (hosts : List PeerId) :
    Gathered L { s.setProcess s.started { me := p, main := .findLeader hosts } with
      started := s.started + 1 } := by
  refine h.replace rfl rfl rfl rfl ?_ ?_
  · intro running
    have known := wired.started L running
    change (Function.update s.processes s.started _ L).running = true
    rw [Function.update_of_ne (Nat.ne_of_lt known)]
    exact running
  · intro _
    refine ⟨rfl, rfl, ?_, fun some => absurd rfl some⟩
    intro _ _ k less
    exact Nat.ne_of_lt (wired.owners k less)

end Gathered

end GroupComm.Lab2
