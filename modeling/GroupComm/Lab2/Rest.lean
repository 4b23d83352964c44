import Mathlib.Algebra.Order.BigOperators.Group.Finset
import Mathlib.Data.Prod.Lex
import GroupComm.Lab2.Balance
import GroupComm.Lab2.NewestConnection
import GroupComm.Lab2.Outlook
import GroupComm.Lab2.StableLeader
import GroupComm.Lab2.TakeoverSteps
import GroupComm.Library.Fairness

/-!
# A group comes to rest

As long as one process leads, its members are up and nobody joins, the steps of the threads come to
an end, in whatever order they are taken (`comes_to_rest`): the leader completes the operation that
it is in, and every member installs all views from the one that has added it on.

* `Attended` collects what is known of such a run.
* `World.toDo` is what is left to do.  A member has less of it after each message
  (`World.Processes`), the leader after each step (`Process.Advances`).
* Where no member has a message left, the answer that the leader waits for has come, since no
  request and no answer is lost (`Attended.arrived_of_quiet`).
-/

namespace GroupComm.Lab2

open MembershipService World Transition Process

/-- Process `L` alone leads, in turn. -/
def Undisturbed (hosts : List PeerId) (L : ProcId) (s : World) (e : Event) : Prop :=
  Stable hosts L s e ∧ InTurn s e

instance decidableUndisturbed (hosts : List PeerId) (L : ProcId) (s : World) :
    DecidablePred (Undisturbed hosts L s) :=
  fun _ => inferInstanceAs (Decidable (_ ∧ _))

/-- The places where a process makes a connection that it did not have before. -/
def MainState.connecting : MainState → Bool
  | findLeader _ => true
  | accept => true
  | _ => false

/-- A thread goes on, and nobody joins. -/
def Settling (hosts : List PeerId) (L : ProcId) (s : World) : Event → Prop
  | .run i t => Undisturbed hosts L s (.run i t) ∧
      (t = .main → (s.processes i).main.connecting = false)
  | _ => False

instance decidableSettling (hosts : List PeerId) (L : ProcId) (s : World) :
    DecidablePred (Settling hosts L s)
  | .run _ _ => inferInstanceAs (Decidable (_ ∧ (_ → _)))
  | .start _ | .crash _ | .heartBeat _ _ | .tick _ _ | .fail _ _ => .isFalse id

/-- The peer that `modifyGroupMembership` has not yet taken up. -/
def Operation.target : Operation → Option PeerId
  | call peerId _ => some peerId
  | lock requestMsg => some requestMsg.peerId
  | _ => none

/-- The peers of process `L` are up, but for the one that it is about to delete. -/
def World.MembersUp (L : ProcId) (s : World) : Prop :=
  ∀ p k, (s.processes L).service.tcpClientMap p = some k →
    (s.processes L).detector.bind Operation.target ≠ some p →
      (s.processes (s.owner k.peer)).running = true

/-- The leader accepts, and every member has processed everything and has installed the leader's
views from the one that has added it on. -/
structure World.AtRest (L : ProcId) (s : World) : Prop where
  accepts : (s.processes L).main = .accept
  idle : (s.processes L).detector = none
  member : ∀ p ∈ (s.processes L).service.alivePeers, ∃ (k : Socket) (n : ℕ) (creation : Creation),
    (s.processes L).service.tcpClientMap p = some k ∧ s.inbox k = [] ∧ s.inbox k.peer = [] ∧
      (s.processes (s.owner k.peer)).main = .startAsFollower ∧
      s.views[n]? = some creation ∧ creation.added = some k ∧
      (s.processes (s.owner k.peer)).installed = (s.processes L).installed.drop n

/-! ## What is known of such a run -/

structure Attended (L : ProcId) (s : World) : Prop where
  wired : Wired s
  gathered : Gathered L s
  tracked : Tracked L s
  session : InSession s
  balanced : s.Balanced
  connected : ∀ i ≠ L, (s.processes i).main.reads = true →
    (s.processes i).service.tcpClientMap (s.processes i).service.leaderPeerId ≠ none

/-- A process that joins a group keeps its connection. -/
theorem ThreadStep.reads_connected {pr next : Process} {t : Thread} {label : Label}
    (step : ThreadStep pr t label next) (place : pr.main.joins = true) (idle : pr.detector = none)
    (connected : pr.main.reads = true → pr.service.tcpClientMap pr.service.leaderPeerId ≠ none) :
    next.main.reads = true → next.service.tcpClientMap next.service.leaderPeerId ≠ none := by
  have elsewhere {main : MainState} (here : pr.main = main) (other : main.joins = false) :
      False := by
    rw [here, other] at place
    cases place
  have outside {t : Thread} {operation : Operation} (here : pr.operation t = some operation) :
      False := by
    rcases operation_cases here with ⟨_, main⟩ | ⟨_, main⟩ | ⟨_, detector⟩
    · exact elsewhere main rfl
    · exact elsewhere main rfl
    · rw [idle] at detector
      cases detector
  cases step with
  | dies _ => exact fun reads => by cases reads
  | call here => exact (outside here).elim
  | lock here _ => exact (outside here).elim
  | sendRequestMsg here _ => exact (outside here).elim
  | requestsSent here => exact (outside here).elim
  | waitForOkMsg here _ _ => exact (outside here).elim
  | newView here => exact (outside here).elim
  | printNewlyInstalledView here _ => exact (outside here).elim
  | sendNewViewMsg here => exact (outside here).elim
  | lockView here _ => exact (outside here).elim
  | deliver here _ => exact (outside here).elim
  | delivered here => exact (outside here).elim
  | skipMyself here => exact fun reads => by cases reads
  | @leaderFound peerId rest client here other =>
      intro _
      change Function.update pr.service.tcpClientMap peerId _ peerId ≠ none
      rw [Function.update_self]
      exact Option.some_ne_none _
  | noLeaderThere here other => exact fun reads => by cases reads
  | noLeaderFound here => exact fun reads => by cases reads
  | startAsLeader here _ => exact (elsewhere here rfl).elim
  | accept here => exact (elsewhere here rfl).elim
  | @followerReceives k m here found free =>
      have before := connected (by rw [here]; rfl)
      cases m with
      | request m => exact fun _ => before
      | newView m => exact fun _ => before
      | ok m => exact fun reads => by cases reads
      | newLeader m => exact fun reads => by cases reads
  | leaderLost here found => exact fun reads => by cases reads
  | sendOkMsg here found => exact fun _ => connected (by rw [here]; rfl)
  | okMsgFailed here found => exact fun reads => by cases reads
  | waitForLeaderCrash here _ => exact (elsewhere here rfl).elim
  | handleLeaderCrash here _ => exact (elsewhere here rfl).elim
  | reconnect here => exact (elsewhere here rfl).elim
  | unreachable here => exact (elsewhere here rfl).elim
  | reconnected here => exact (elsewhere here rfl).elim
  | introduce here => exact (elsewhere here rfl).elim
  | introduceFailed here => exact (elsewhere here rfl).elim
  | pendingRequest here _ => exact (elsewhere here rfl).elim
  | notConnected here _ => exact (elsewhere here rfl).elim
  | completeRequest here _ => exact (elsewhere here rfl).elim
  | nothingPending here _ => exact (elsewhere here rfl).elim
  | waitForNewLeaderMsg here => exact (elsewhere here rfl).elim
  | greet here => exact (elsewhere here rfl).elim
  | sendPendingRequestMsg here _ => exact (elsewhere here rfl).elim

theorem attended_of_reachable {hosts : List PeerId} {L : ProcId} {s : World}
    (reach : Reach (World.step hosts) (Undisturbed hosts L) {} s) : Attended L s := by
  have inTurn (s : World) (reach : Reach (World.step hosts) (Undisturbed hosts L) {} s) :
      Reach (World.step hosts) InTurn {} s := reach.mono fun _ _ both => both.2
  have followed (s : World) (reach : Reach (World.step hosts) (Undisturbed hosts L) {} s) :
      Gathered L s ∧ Tracked L s := tracked_of_stable (reach.mono fun _ _ both => both.1)
  have connected : ∀ i ≠ L, (s.processes i).main.reads = true →
      (s.processes i).service.tcpClientMap (s.processes i).service.leaderPeerId ≠ none := by
    refine reach.invariant_with (Q := Gathered L) (P := fun s => ∀ i ≠ L,
      (s.processes i).main.reads = true →
        (s.processes i).service.tcpClientMap (s.processes i).service.leaderPeerId ≠ none)
      (fun s before => (followed s before).1) (fun _ _ reads => by cases reads) ?_
    intro s e s' gathered before _ taken
    obtain ⟨j, next, step, same⟩ := (worldStep_of_step taken).processStep
    intro i apart reads
    rw [same, Function.update_apply] at reads ⊢
    split at reads
    · rename_i here
      rw [if_pos here]
      subst here
      cases step with
      | start => cases reads
      | crash _ => cases reads
      | heartBeat _ _ _ => exact before i apart reads
      | @tick _ order _ _ =>
          obtain ⟨_, _, _, _, same⟩ := (s.processes i).tick_eq order
          rw [same] at reads ⊢
          exact before i apart reads
      | thread _ _ step _ _ =>
          obtain ⟨joins, idle⟩ := gathered.others i apart
          exact step.reads_connected joins idle (before i apart) reads
    · rename_i other
      rw [if_neg other]
      exact before i apart reads
  obtain ⟨gathered, tracked⟩ := followed s reach
  exact ⟨wired_of_reachable reach.always, gathered, tracked, inSession_of_inTurn (inTurn s reach),
    balanced_of_inTurn (inTurn s reach), connected⟩

namespace Attended

variable {hosts : List PeerId} {L : ProcId} {s : World}

/-- A member that is up reads from the leader. -/
theorem leaderClient (h : Attended L s) {k : Socket} (less : k.connection < s.opened)
    (apart : s.owner k ≠ L) (running : (s.processes (s.owner k)).running = true) :
    (s.processes (s.owner k)).leaderClient = some k := by
  have joins := (h.gathered.others _ apart).1
  have reads : (s.processes (s.owner k)).main.reads = true := by
    cases place : (s.processes (s.owner k)).main with
    | findLeader rest => exact absurd rfl (h.gathered.searching _ apart rest place k less)
    | startAsFollower => rfl
    | sendOkMsg => rfl
    | stopped =>
        rw [Process.running, place] at running
        cases running
    | _ =>
        rw [place] at joins
        cases joins
  obtain ⟨k', found⟩ := Option.ne_none_iff_exists'.mp (h.connected _ apart reads)
  obtain ⟨less', own, _⟩ := h.wired.held _ _ k' (Or.inl found)
  have same := h.gathered.single k k' less less' apart own
  rw [leaderClient_of_reads reads, found, same]

end Attended

/-! ## What is left to do -/

/-- What a process has not read, each message to be read and perhaps answered, and the answer that
it owes. -/
def World.pending (s : World) (i : ProcId) : ℕ :=
  2 * ((s.processes i).unread s.inbox).length + (s.processes i).answering.length

/-- The phase of the main thread, and the steps that its loop has still to do. -/
def MainState.toDo : MainState → ℕ × ℕ
  | startAsLeader => (1, 0)
  | addPeer operation => (operation.phase, operation.remaining)
  | _ => (0, 0)

/-- The phases of both threads, and the steps that their loops have still to do. -/
def Process.toDo (pr : Process) : ℕ ×ₗ ℕ :=
  toLex (pr.main.toDo.1 + (pr.detector.elim 0 Operation.phase),
    pr.main.toDo.2 + (pr.detector.elim 0 Operation.remaining))

/-- A member's step leaves the leader as it is, and a step of the leader comes first. -/
def World.toDo (L : ProcId) (s : World) : (ℕ ×ₗ ℕ) ×ₗ ℕ :=
  toLex ((s.processes L).toDo, ∑ i ∈ Finset.range s.started, s.pending i)

/-! ## A member processes what it has been sent -/

section

variable {hosts : List PeerId} {L : ProcId} {s s' : World}

theorem reachesLeader_eq_false {i : ProcId} (elsewhere : ∀ m rest tempAlivePeers,
    (s.processes i).main ≠ .sendNewLeaderMsg m rest tempAlivePeers) :
    s.reachesLeader i = false := by
  unfold World.reachesLeader
  split
  · rename_i main
    exact absurd main (elsewhere _ _ _)
  · rfl

theorem pending_congr {j : ProcId} (process : s'.processes j = s.processes j)
    (inbox : ∀ k, (s.processes j).leaderClient = some k → s'.inbox k = s.inbox k) :
    s'.pending j = s.pending j := by
  unfold World.pending Process.unread
  rw [process]
  cases reads : (s.processes j).leaderClient with
  | none => rfl
  | some k =>
      change 2 * (s'.inbox k).length + _ = 2 * (s.inbox k).length + _
      rw [inbox k reads]

theorem pending_eq {i : ProcId} {k : Socket} (reads : (s.processes i).leaderClient = some k) :
    s.pending i = 2 * (s.inbox k).length + (s.processes i).answering.length := by
  unfold World.pending Process.unread
  rw [reads]
  rfl

/-- What a step of a member comes to. -/
structure World.Processes (L : ProcId) (i : ProcId) (s s' : World) : Prop where
  known : i < s.started
  leader : s'.processes L = s.processes L
  owner : s'.owner = s.owner
  started : s'.started = s.started
  running : ∀ j, (s.processes j).running = true → (s'.processes j).running = true
  fewer : s'.pending i < s.pending i
  others : ∀ j ≠ i, s'.pending j = s.pending j

theorem MainState.follower_of_reads {main : MainState} (reads : main.reads = true) :
    main = .startAsFollower ∨ main = .sendOkMsg := by
  cases main with
  | startAsFollower => exact Or.inl rfl
  | sendOkMsg => exact Or.inr rfl
  | _ => cases reads

theorem reads_of_pending {i : ProcId} (busy : 0 < s.pending i) :
    (s.processes i).main.reads = true := by
  by_contra silent
  rw [Bool.not_eq_true] at silent
  unfold World.pending Process.unread Process.answering at busy
  rw [leaderClient_of_not_reads silent] at busy
  cases place : (s.processes i).main with
  | sendOkMsg =>
      rw [place] at silent
      cases silent
  | _ =>
      rw [place] at busy
      exact absurd busy (Nat.lt_irrefl 0)

/-- A member's step on its connection to the leader. -/
theorem Attended.processes_of_update (h : Attended L s)
    (serves : (s.processes L).main.serves = true) {i : ProcId} {next : Process} {k : Socket}
    (apart : i ≠ L) (less : k.connection < s.opened) (own : s.owner k = i)
    (processes : s'.processes = Function.update s.processes i next) (owner : s'.owner = s.owner)
    (started : s'.started = s.started) (running : next.running = true)
    (inbox : ∀ k', k' ≠ k → k' ≠ k.peer → s'.inbox k' = s.inbox k')
    (fewer : s'.pending i < s.pending i) : s.Processes L i s' := by
  have process (j : ProcId) (other : j ≠ i) : s'.processes j = s.processes j := by
    rw [processes, Function.update_of_ne other]
  refine ⟨own ▸ h.wired.owners k less, process L apart.symm, owner, started, ?_, fewer, ?_⟩
  · intro j up
    by_cases same : j = i
    · rw [processes, same, Function.update_self]
      exact running
    · rw [process j same]
      exact up
  · intro j other
    refine pending_congr (process j other) fun k' reads => inbox k' ?_ ?_
    · rintro rfl
      obtain ⟨_, holds⟩ := holds_of_leaderClient reads
      exact other ((h.wired.held j _ _ holds).2.1.symm.trans own)
    · rintro rfl
      obtain ⟨follows, holds⟩ := holds_of_leaderClient reads
      have leads := (h.wired.held j _ _ holds).2.1.symm.trans
        (h.gathered.owner_peer less (own ▸ apart))
      rw [leads] at follows
      rcases MainState.follower_of_reads follows with place | place
      · rw [place] at serves
        cases serves
      · rw [place] at serves
        cases serves

/-- What a member expects it reads and, if it is a request, has then to answer. -/
theorem followerReceives_expected {pr : Process} {k : Socket} {m : Msg}
    (place : pr.main = .startAsFollower)
    (found : pr.service.tcpClientMap pr.service.leaderPeerId = some k)
    (expects : pr.expects .main m = true) :
    (pr.followerReceives m).running = true ∧ (pr.followerReceives m).leaderClient = some k ∧
      (pr.followerReceives m).answering.length ≤ 1 := by
  unfold Process.expects Process.operation at expects
  rw [place] at expects
  cases m with
  | request m => exact ⟨rfl, found, Nat.le_refl 1⟩
  | newView m =>
      have here : (pr.followerReceives (.newView m)).main = .startAsFollower := place
      refine ⟨?_, ?_, ?_⟩
      · rw [Process.running, here]
        rfl
      · exact (leaderClient_of_reads (by rw [here]; rfl)).trans found
      · rw [Process.answering, here]
        exact Nat.zero_le 1
  | ok m => cases expects
  | newLeader m => cases expects

theorem mainEffect_of_follower {pr : Process} {k : Socket} (place : pr.main = .startAsFollower)
    (found : pr.service.tcpClientMap pr.service.leaderPeerId = some k)
    (free : pr.lockTaken .main = false) : pr.mainEffect =
      .receive k pr.followerReceives { pr with main := .waitForLeaderCrash } := by
  unfold mainEffect
  rw [place]
  dsimp only
  rw [found]
  dsimp only
  rw [free]
  rfl

/-- A member goes on with what it has been sent. -/
theorem Attended.processes (h : Attended L s) (hosts : List PeerId)
    (serves : (s.processes L).main.serves = true) {i : ProcId} (busy : 0 < s.pending i) :
    ∃ s', s.step hosts (.run i .main) = some s' ∧ Settling hosts L s (.run i .main) ∧
      s.Processes L i s' := by
  have reads := reads_of_pending busy
  have apart : i ≠ L := by
    rintro rfl
    rcases MainState.follower_of_reads reads with place | place
    · rw [place] at serves
      cases serves
    · rw [place] at serves
      cases serves
  obtain ⟨k, found⟩ := Option.ne_none_iff_exists'.mp (h.connected i apart reads)
  have client := (leaderClient_of_reads reads).trans found
  obtain ⟨less, own, _⟩ := h.wired.held i _ k (Or.inl found)
  suffices step : ∃ s', s.step hosts (.run i .main) = some s' ∧ s.Processes L i s' by
    obtain ⟨s', taken, does⟩ := step
    refine ⟨s', taken, ⟨⟨⟨?_, ?_⟩, reachesLeader_eq_false fun _ _ _ main => ?_⟩, fun _ => ?_⟩,
      does⟩
    · rcases MainState.follower_of_reads reads with place | place
      · change s.MayRun L i _
        rw [place]
        trivial
      · change s.MayRun L i _
        rw [place]
        trivial
    · intro s'' mem up
      rw [taken] at mem
      cases mem
      rw [does.leader]
      exact up
    · rw [main] at reads
      cases reads
    · rcases MainState.follower_of_reads reads with place | place
      · rw [place]
        rfl
      · rw [place]
        rfl
  have up : (s.processes i).running = true := by
    rcases MainState.follower_of_reads reads with place | place
    · exact decide_eq_true (by rw [place]; exact fun same => by cases same)
    · exact decide_eq_true (by rw [place]; exact fun same => by cases same)
  have free : (s.processes i).lockTaken .main = false := by
    change (s.processes i).detector.any Operation.locked = false
    rw [(h.gathered.others i apart).2]
    rfl
  rw [World.step, if_pos up]
  change ∃ s', s.perform i (s.processes i).mainEffect = some s' ∧ _
  have before := pending_eq client
  rcases MainState.follower_of_reads reads with place | place
  · rw [mainEffect_of_follower place found free]
    unfold World.perform
    dsimp only
    cases head : s.inbox k with
    | nil =>
        rw [before, head] at busy
        unfold Process.answering at busy
        rw [place] at busy
        exact absurd busy (Nat.lt_irrefl 0)
    | cons m rest =>
        have expects := h.session.inStep h.wired i .main k _ _ m rest up
          (mainEffect_of_follower place found free) head
        obtain ⟨running, reads', answering⟩ := followerReceives_expected place found expects
        refine ⟨_, rfl, h.processes_of_update serves apart less own rfl rfl rfl running ?_ ?_⟩
        · intro k' other _
          exact Function.update_of_ne other _ _
        · rw [before, head, pending_eq (k := k)]
          · change 2 * (Function.update s.inbox k rest k).length +
              (Process.answering (Function.update s.processes i _ i)).length < _
            rw [Function.update_self, Function.update_self, List.length_cons]
            omega
          · change (Process.leaderClient (Function.update s.processes i _ i)) = _
            rw [Function.update_self]
            exact reads'
  · have effect : (s.processes i).mainEffect = .send k
        (.ok (s.processes i).service.createOkMsg)
        { s.processes i with main := .startAsFollower }
        { s.processes i with main := .waitForLeaderCrash } := by
      unfold mainEffect sendToLeader
      rw [place]
      dsimp only
      rw [found]
    rw [effect]
    refine ⟨_, rfl, h.processes_of_update serves apart less own rfl rfl rfl rfl ?_ ?_⟩
    · intro k' _ other
      exact Function.update_of_ne other _ _
    · rw [before, pending_eq (k := k)]
      · change 2 * (Function.update s.inbox k.peer _ k).length + _ < _
        rw [Function.update_of_ne k.peer_ne.symm]
        change 2 * _ + (Process.answering (Function.update s.processes i _ i)).length < _
        rw [Function.update_self]
        unfold Process.answering
        rw [place]
        exact Nat.lt_succ_self _
      · change (Process.leaderClient (Function.update s.processes i _ i)) = _
        rw [Function.update_self]
        exact found

end

/-! ## The leader goes on -/

theorem running_of_serves {pr : Process} (serves : pr.main.serves = true) :
    pr.running = true := by
  refine decide_eq_true ?_
  intro stopped
  rw [stopped] at serves
  cases serves

/-- What a step of the leader comes to. -/
structure Process.Advances (pr next : Process) : Prop where
  running : next.running = true
  serves : next.main.serves = true
  nearer : next.toDo < pr.toDo
  kept : ∀ p k, next.service.tcpClientMap p = some k →
    next.detector.bind Operation.target ≠ some p →
      pr.service.tcpClientMap p = some k ∧ pr.detector.bind Operation.target ≠ some p

namespace Process

variable {pr data : Process} {t : Thread} {operation next : Operation}

theorem advances_setOperation (leading : pr.Leading) (serves : pr.main.serves = true)
    (place : pr.operation t = some operation) (main : data.main = pr.main)
    (detector : data.detector = pr.detector)
    (later : next.phase < operation.phase ∨
      next.phase = operation.phase ∧ next.remaining < operation.remaining)
    (kept : ∀ p k, data.service.tcpClientMap p = some k →
      (t = .detector → next.target ≠ some p) → pr.service.tcpClientMap p = some k ∧
        (t = .detector → operation.target ≠ some p)) :
    pr.Advances (data.setOperation next t) := by
  rcases leading.operation_cases place with ⟨rfl, here⟩ | ⟨rfl, here⟩
  · have alone : pr.detector = none := leading.steady.alone place
    rw [setOperation_addPeer (main.trans here)]
    refine ⟨rfl, rfl, ?_, fun p k found _ => ?_⟩
    · unfold toDo
      rw [here, alone]
      change toLex (_, _ + data.detector.elim 0 _) < _
      rw [detector, alone]
      exact Prod.Lex.toLex_lt_toLex.mpr later
    · rw [alone]
      refine ⟨(kept p k found fun same => by cases same).1, fun same => by cases same⟩
  · have serves' : (data.setOperation next .detector).main.serves = true := main ▸ serves
    refine ⟨running_of_serves serves', serves', ?_, fun p k found apart => ?_⟩
    · unfold toDo
      rw [here]
      change toLex (data.main.toDo.1 + next.phase, data.main.toDo.2 + next.remaining) <
        toLex (pr.main.toDo.1 + operation.phase, pr.main.toDo.2 + operation.remaining)
      rw [main, Prod.Lex.toLex_lt_toLex]
      dsimp only
      omega
    · rw [here]
      obtain ⟨found', apart'⟩ := kept p k found fun _ => apart
      exact ⟨found', apart' rfl⟩

/-- A peer is taken up where the lock is taken. -/
theorem advances_in_block (leading : pr.Leading) (serves : pr.main.serves = true)
    (place : pr.operation t = some operation) (data : Process) (main : data.main = pr.main)
    (detector : data.detector = pr.detector)
    (tcpClientMap : data.service.tcpClientMap = pr.service.tcpClientMap)
    (taken : operation.target = none)
    (later : next.phase < operation.phase ∨
      next.phase = operation.phase ∧ next.remaining < operation.remaining) :
    pr.Advances (data.setOperation next t) :=
  advances_setOperation leading serves place main detector later fun p k found _ =>
    ⟨tcpClientMap ▸ found, fun _ same => by rw [taken] at same; cases same⟩

theorem advances_beginOperation (leading : pr.Leading) (sound : pr.Sound)
    (serves : pr.main.serves = true) {m : RequestMsg} (place : pr.operation t = some (.lock m))
    (rest : List PeerId) :
    pr.Advances ((pr.beginOperation m).setOperation (.sendRequestMsg m rest) t) := by
  refine advances_setOperation leading serves place rfl rfl (Or.inl (Nat.lt_succ_self 6)) ?_
  intro p k found _
  change (pr.service.beginModification m.peerId m.operationType).tcpClientMap p = some k at found
  unfold beginModification at found
  split at found
  · dsimp only at found
    rw [Function.update_apply] at found
    split at found
    · cases found
    · rename_i other
      refine ⟨found, fun _ same => other ?_⟩
      cases same
      rfl
  · rename_i adds
    refine ⟨found, ?_⟩
    rintro rfl
    exact absurd (sound.deletes _ place _ rfl) adds

theorem advances_finishOperation (leading : pr.Leading) (serves : pr.main.serves = true)
    {m : NewViewMsg} (place : pr.operation t = some (.deliver m [])) :
    pr.Advances (pr.finishOperation t) := by
  rcases leading.operation_cases place with ⟨rfl, here⟩ | ⟨rfl, here⟩
  · have alone : pr.detector = none := leading.steady.alone place
    rw [finishOperation_addPeer here]
    refine ⟨rfl, rfl, ?_, fun p k found _ => ⟨found, ?_⟩⟩
    · unfold toDo
      rw [here, alone]
      exact Prod.Lex.toLex_lt_toLex.mpr (Or.inl (Nat.lt_succ_self 0))
    · rw [alone]
      exact fun same => by cases same
  · have serves' : (pr.finishOperation .detector).main.serves = true := serves
    refine ⟨running_of_serves serves', serves', ?_, fun p k found _ => ⟨found, ?_⟩⟩
    · unfold toDo
      rw [here]
      exact Prod.Lex.toLex_lt_toLex.mpr (Or.inl (Nat.lt_succ_self _))
    · rw [here]
      exact fun same => by cases same

/-- The lock is free where one change is handled at a time. -/
theorem Leading.free (leading : pr.Leading) (place : pr.operation t = some operation) :
    pr.lockTaken t = false := by
  rcases leading.operation_cases place with ⟨rfl, here⟩ | ⟨rfl, here⟩
  · have alone : pr.detector = none := leading.steady.alone place
    change pr.detector.any Operation.locked = false
    rw [alone]
    rfl
  · have idle := leading.steady.idle (by rw [here]; exact Option.some_ne_none _)
    change pr.main.locked = false
    cases main : pr.main <;> rw [main] at idle <;> first | rfl | cases idle

end Process

section

variable {hosts : List PeerId} {L : ProcId} {s : World}

/-- A member with nothing left to process. -/
theorem Attended.rested (h : Attended L s) (rules : (s.processes L).main.rules = true)
    {p : PeerId} {k : Socket}
    (found : (s.processes L).service.tcpClientMap p = some k)
    (running : (s.processes (s.owner k.peer)).running = true)
    (quiet : s.pending (s.owner k.peer) = 0) :
    (s.processes (s.owner k.peer)).main = .startAsFollower ∧
      (s.processes (s.owner k.peer)).service.tcpClientMap
        (s.processes (s.owner k.peer)).service.leaderPeerId = some k.peer ∧
      s.inbox k.peer = [] ∧ okIds (s.inbox k) = (s.processes L).owed p ∧
      ∀ m ∈ s.inbox k, m.isOk = true := by
  obtain ⟨less, own, _⟩ := h.wired.held L p k (Or.inl found)
  have apart : s.owner k.peer ≠ L := own ▸ h.wired.owner_peer_ne less
  have client := h.leaderClient (k := k.peer) less apart running
  obtain ⟨reads, _⟩ := holds_of_leaderClient client
  have found' := (leaderClient_of_reads reads).symm.trans client
  rw [pending_eq client, Nat.add_eq_zero_iff, Nat.mul_eq_zero, List.length_eq_zero_iff,
    List.length_eq_zero_iff] at quiet
  obtain ⟨unread, answering⟩ := quiet
  have unread := unread.resolve_left two_ne_zero
  have follows := MainState.follower_of_reads reads
  have plays := Process.plays_member follows found'
  rw [answering] at plays
  have plays' : s.Plays k.peer.peer (.leads ((s.processes L).owed p)) := by
    rw [Socket.peer_peer]
    exact .process (by rw [own]; exact .leads rules found)
  have balanced := h.balanced k.peer less _ _ (.process plays) plays'
  have joint := h.session.joint (k := k.peer) less (.process plays) plays'
  rw [Socket.peer_peer] at balanced joint
  rw [unread, List.append_nil] at balanced
  refine ⟨?_, found', unread, (List.append_nil _).symm.trans balanced, ?_⟩
  · rcases follows with place | place
    · exact place
    · refine absurd answering ?_
      rw [Process.answering, place]
      exact List.cons_ne_nil _ _
  · rcases joint with joint | joint
    · cases joint with
      | joined _ toLeader _ => exact toLeader
    · cases joint

/-- The answer that an operation waits for next has arrived. -/
def World.Arrived (s : World) (L : ProcId) : Operation → Prop
  | .waitForOkMsg m (p :: _) => ∃ (k : Socket) (inbox : List Msg) (okMsg : OkMsg),
      (s.processes L).service.tcpClientMap p = some k ∧ s.inbox k = .ok okMsg :: inbox ∧
        okMsg.requestId = m.requestId
  | _ => True

/-- The leader waits for somebody who is up. -/
theorem Attended.awaited (h : Attended L s) (up : s.MembersUp L) {t : Thread} {m : RequestMsg}
    {p : PeerId} {rest : List PeerId}
    (place : (s.processes L).operation t = some (.waitForOkMsg m (p :: rest))) :
    ∃ k, (s.processes L).service.tcpClientMap p = some k ∧
      (s.processes (s.owner k.peer)).running = true := by
  have leading := h.tracked.leading
  obtain ⟨_, connected⟩ := (h.session.tidy L).addresses t _ place
  obtain ⟨k, found⟩ := Option.ne_none_iff_exists'.mp (connected p List.mem_cons_self)
  refine ⟨k, found, up p k found ?_⟩
  rcases leading.operation_cases place with ⟨rfl, _⟩ | ⟨_, here⟩
  · have alone : (s.processes L).detector = none := leading.steady.alone place
    rw [alone]
    exact fun same => by cases same
  · rw [here]
    exact fun same => by cases same

/-- Where nobody has anything left to process, the answer that the leader waits for has come. -/
theorem Attended.arrived_of_quiet (h : Attended L s) (up : s.MembersUp L)
    (quiet : ∀ i, s.pending i = 0) {t : Thread} {operation : Operation}
    (place : (s.processes L).operation t = some operation) : s.Arrived L operation := by
  unfold World.Arrived
  split
  · rename_i m p rest
    obtain ⟨k, found, running⟩ := h.awaited up place
    obtain ⟨_, _, _, replies, oks⟩ :=
      h.rested ((h.session.tidy L).rules place) found running (quiet _)
    have owed : (Operation.waitForOkMsg m (p :: rest)).owed (s.processes L).service.alivePeers p =
        [m.requestId] := if_pos List.mem_cons_self
    rw [(h.wired.sound L).owed_eq place rfl, owed] at replies
    cases head : s.inbox k with
    | nil =>
        rw [head] at replies
        cases replies
    | cons m₀ inbox =>
        cases m₀ with
        | ok okMsg =>
            rw [head] at replies
            exact ⟨k, inbox, okMsg, found, head, (List.cons.inj replies).1⟩
        | _ => cases oks _ (head ▸ List.mem_cons_self)
  · trivial

/-- A leader that goes on has got the answer that it has waited for. -/
theorem Attended.arrived_of_perform (h : Attended L s) (up : s.MembersUp L) {t : Thread}
    {operation : Operation} (place : (s.processes L).operation t = some operation) {s' : World}
    (performed : s.perform L ((s.processes L).effect t) = some s') : s.Arrived L operation := by
  unfold World.Arrived
  split
  · rename_i m p rest
    obtain ⟨k, found, running⟩ := h.awaited up place
    have less := (h.wired.held L p k (Or.inl found)).1
    have effect : ∃ received lost, (s.processes L).effect t = .receive k received lost := by
      rw [effect_operation place]
      unfold operationEffect
      dsimp only
      rw [found]
      exact ⟨_, _, rfl⟩
    obtain ⟨received, lost, effect⟩ := effect
    have there : s.ended k.peer = false := by
      unfold World.ended
      rw [h.gathered.unreset, running]
      rfl
    rw [effect] at performed
    unfold World.perform at performed
    dsimp only at performed
    cases head : s.inbox k with
    | nil =>
        rw [head, there] at performed
        cases performed
    | cons m₀ inbox =>
        have running : (s.processes L).running = true := h.gathered.up (Nat.zero_lt_of_lt less)
        have expects := h.session.inStep h.wired L t k received lost m₀ inbox running effect head
        unfold Process.expects at expects
        rw [place] at expects
        cases m₀ with
        | ok okMsg => exact ⟨k, inbox, okMsg, found, head, of_decide_eq_true expects⟩
        | _ => cases expects
  · trivial

theorem Attended.advances (h : Attended L s) (serves : (s.processes L).main.serves = true)
    {t : Thread} {operation : Operation} (place : (s.processes L).operation t = some operation)
    (arrived : s.Arrived L operation) :
    ∃ s' next, s.perform L ((s.processes L).operationEffect t operation) = some s' ∧
      s'.processes = Function.update s.processes L next ∧ s'.owner = s.owner ∧
        (s.processes L).Advances next := by
  have leading := h.tracked.leading
  have free := leading.free place
  have sooner (n : ℕ) : n < n + 1 := Nat.lt_succ_self n
  unfold operationEffect sendTo
  cases operation with
  | call peerId operationType =>
      refine ⟨_, _, rfl, rfl, rfl, advances_setOperation leading serves place rfl rfl
        (Or.inl (sooner 7)) fun p k found apart => ⟨found, fun here => ?_⟩⟩
      exact apart here
  | lock m =>
      dsimp only
      rw [free]
      exact ⟨_, _, rfl, rfl, rfl,
        advances_beginOperation leading (h.wired.sound L) serves place _⟩
  | sendRequestMsg m rest =>
      cases rest with
      | nil =>
          exact ⟨_, _, rfl, rfl, rfl,
            advances_in_block leading serves place _ rfl rfl rfl rfl (Or.inl (sooner 5))⟩
      | cons p rest =>
          obtain ⟨_, alive, _⟩ := (h.session.tidy L).addresses t _ place
          obtain ⟨k, found⟩ :=
            Option.ne_none_iff_exists'.mp (leading.alive p (alive p List.mem_cons_self))
          dsimp only
          rw [found]
          exact ⟨_, _, rfl, rfl, rfl,
            advances_in_block leading serves place _ rfl rfl rfl rfl (Or.inr ⟨rfl, sooner _⟩)⟩
  | waitForOkMsg m rest =>
      cases rest with
      | nil =>
          exact ⟨_, _, rfl, rfl, rfl,
            advances_in_block leading serves place _ rfl rfl rfl rfl (Or.inl (sooner 4))⟩
      | cons p rest =>
          obtain ⟨k, inbox, okMsg, found, head, expected⟩ := arrived
          dsimp only
          rw [found]
          dsimp only [World.perform]
          rw [head]
          dsimp only
          rw [if_pos expected]
          exact ⟨_, _, rfl, rfl, rfl,
            advances_in_block leading serves place _ rfl rfl rfl rfl (Or.inr ⟨rfl, sooner _⟩)⟩
  | printNewlyInstalledView =>
      dsimp only
      rw [free]
      exact ⟨_, _, rfl, rfl, rfl,
        advances_in_block leading serves place _ rfl rfl rfl rfl (Or.inl (sooner 3))⟩
  | sendNewViewMsg =>
      exact ⟨_, _, rfl, rfl, rfl,
        advances_in_block leading serves place _ rfl rfl rfl rfl (Or.inl (sooner 2))⟩
  | lockView newViewId =>
      dsimp only
      rw [free]
      exact ⟨_, _, rfl, rfl, rfl,
        advances_in_block leading serves place _ rfl rfl rfl rfl (Or.inl (sooner 1))⟩
  | deliver m rest =>
      cases rest with
      | nil => exact ⟨_, _, rfl, rfl, rfl, advances_finishOperation leading serves place⟩
      | cons p rest =>
          obtain ⟨_, _, alive, _⟩ := leading.steady.tells t _ place
          obtain ⟨k, found⟩ :=
            Option.ne_none_iff_exists'.mp (leading.alive p (alive p List.mem_cons_self))
          dsimp only
          rw [found]
          exact ⟨_, _, rfl, rfl, rfl,
            advances_in_block leading serves place _ rfl rfl rfl rfl (Or.inr ⟨rfl, sooner _⟩)⟩

theorem Process.advances_startAsLeader {pr : Process} (place : pr.main = .startAsLeader) :
    pr.Advances { pr.install with main := .accept } := by
  refine ⟨rfl, rfl, Prod.Lex.toLex_lt_toLex.mpr (Or.inl ?_), fun _ _ found apart => ⟨found, apart⟩⟩
  rw [place]
  exact Nat.add_lt_add_right Nat.zero_lt_one _

/-- Where a leader is not about to accept a connection. -/
theorem MainState.cases_of_serves {main : MainState} (serves : main.serves = true) :
    main = .startAsLeader ∨ main = .accept ∨ ∃ operation, main = .addPeer operation := by
  cases main with
  | startAsLeader => exact Or.inl rfl
  | accept => exact Or.inr (Or.inl rfl)
  | addPeer operation => exact Or.inr (Or.inr ⟨operation, rfl⟩)
  | _ => cases serves

/-- A step of the leader, which may have to wait for an answer or for the lock. -/
theorem Attended.leads (h : Attended L s) (serves : (s.processes L).main.serves = true)
    (up : s.MembersUp L) {t : Thread} (alone : t = .main → (s.processes L).main.connecting = false)
    {s' : World} (performed : s.perform L ((s.processes L).effect t) = some s') :
    ∃ next, s'.processes = Function.update s.processes L next ∧ s'.owner = s.owner ∧
      (s.processes L).Advances next := by
  by_cases place : ∃ operation, (s.processes L).operation t = some operation
  · obtain ⟨operation, place⟩ := place
    obtain ⟨s'', next, performed', rest⟩ :=
      h.advances serves place (h.arrived_of_perform up place performed)
    rw [← effect_operation place, performed] at performed'
    cases performed'
    exact ⟨next, rest⟩
  · cases t with
    | detector =>
        have idle : (s.processes L).detector = none :=
          Option.eq_none_iff_forall_ne_some.mpr fun operation here => place ⟨operation, here⟩
        rw [effect, idle] at performed
        cases performed
    | main =>
        rcases MainState.cases_of_serves serves with here | here | ⟨operation, here⟩
        · refine ⟨{ (s.processes L).install with main := .accept }, ?_⟩
          change s.perform L (s.processes L).mainEffect = some s' at performed
          rw [mainEffect, here] at performed
          dsimp only at performed
          split at performed
          · cases performed
          · cases performed
            exact ⟨rfl, rfl, advances_startAsLeader here⟩
        · have connects := alone rfl
          rw [here] at connects
          cases connects
        · exact absurd ⟨operation, by rw [Process.operation, here]⟩ place

/-- The leader can take a step, unless it is at rest. -/
theorem Attended.canLead (h : Attended L s) (serves : (s.processes L).main.serves = true)
    (up : s.MembersUp L) (quiet : ∀ i, s.pending i = 0)
    (busy : (s.processes L).main = .accept → (s.processes L).detector ≠ none) :
    ∃ t s', s.perform L ((s.processes L).effect t) = some s' ∧
      (t = .main → (s.processes L).main.connecting = false) := by
  have ready {t : Thread} {operation : Operation}
      (place : (s.processes L).operation t = some operation) :
      ∃ s', s.perform L ((s.processes L).effect t) = some s' := by
    obtain ⟨s', _, performed, _⟩ :=
      h.advances serves place (h.arrived_of_quiet up quiet place)
    exact ⟨s', (effect_operation place).symm ▸ performed⟩
  cases detector : (s.processes L).detector with
  | some operation =>
      obtain ⟨s', performed⟩ := ready (t := .detector) detector
      exact ⟨.detector, s', performed, fun same => by cases same⟩
  | none =>
      rcases MainState.cases_of_serves serves with here | here | ⟨operation, here⟩
      · have performed : ∃ s', s.perform L (s.processes L).mainEffect = some s' := by
          rw [mainEffect, here]
          dsimp only
          rw [lockTaken, detector]
          exact ⟨_, rfl⟩
        obtain ⟨s', performed⟩ := performed
        exact ⟨.main, s', performed, fun _ => by rw [here]; rfl⟩
      · exact absurd detector (busy here)
      · obtain ⟨s', performed⟩ := ready (t := .main) (by rw [Process.operation, here])
        exact ⟨.main, s', performed, fun _ => by rw [here]; rfl⟩

/-- The peers of the leader are up after a step of it. -/
theorem World.MembersUp.advances (up : s.MembersUp L) {s' : World} {next : Process}
    (processes : s'.processes = Function.update s.processes L next) (owner : s'.owner = s.owner)
    (advances : (s.processes L).Advances next) : s'.MembersUp L := by
  intro p k found apart
  rw [processes, Function.update_self] at found apart
  obtain ⟨found', apart'⟩ := advances.kept p k found apart
  rw [owner, processes, Function.update_apply]
  split
  · exact advances.running
  · exact up p k found' apart'

/-- The group is at rest when the leader has nothing to do and nobody has anything to process. -/
theorem Attended.atRest (h : Attended L s) (accepts : (s.processes L).main = .accept)
    (idle : (s.processes L).detector = none) (up : s.MembersUp L) (quiet : ∀ i, s.pending i = 0) :
    s.AtRest L := by
  have nowhere (t : Thread) : (s.processes L).operation t = none := by
    cases t with
    | main =>
        unfold Process.operation
        rw [accepts]
    | detector => exact idle
  refine ⟨accepts, idle, fun p mem => ?_⟩
  obtain ⟨k, found⟩ := Option.ne_none_iff_exists'.mp (h.tracked.leading.alive p mem)
  have running := up p k found (by rw [idle]; exact fun same => by cases same)
  obtain ⟨follows, _, unread, replies, oks⟩ :=
    h.rested (by rw [accepts]; rfl) found running (quiet _)
  obtain ⟨⟨creation, made, added⟩, complete⟩ := h.tracked.complete p mem k found
  obtain ⟨n, at_n⟩ := List.getElem?_of_mem made
  refine ⟨k, n, creation, found, ?_, unread, follows, at_n, added, ?_⟩
  · rw [owed_of_idle fun t operation place => by rw [nowhere] at place; cases place] at replies
    cases head : s.inbox k with
    | nil => rfl
    | cons m inbox =>
        cases m with
        | ok okMsg =>
            rw [head] at replies
            cases replies
        | _ => cases oks _ (head ▸ List.mem_cons_self)
  · have heard := complete running n creation at_n added
    have nothing : (s.processes L).owedViews p = [] := by
      unfold owedViews owesView
      rw [nowhere, nowhere]
      rfl
    unfold World.heard at heard
    rw [nothing, List.append_nil, if_pos running, unread] at heard
    rw [h.tracked.own, ← List.map_drop]
    exact (List.append_nil _).symm.trans heard

/-! ## Every such run comes to an end -/

/-- What holds as long as the group settles. -/
structure Underway (hosts : List PeerId) (L : ProcId) (s : World) : Prop where
  reach : Reach (World.step hosts) (Undisturbed hosts L) {} s
  serves : (s.processes L).main.serves = true
  up : s.MembersUp L

/-- A member with nothing to process has to wait. -/
theorem Attended.busy_of_step (h : Attended L s) {i : ProcId} (apart : i ≠ L)
    (reads : (s.processes i).main.reads = true) {s' : World}
    (performed : s.perform i (s.processes i).mainEffect = some s') : 0 < s.pending i := by
  obtain ⟨k, found⟩ := Option.ne_none_iff_exists'.mp (h.connected i apart reads)
  have client := (leaderClient_of_reads reads).trans found
  obtain ⟨less, own, _⟩ := h.wired.held i _ k (Or.inl found)
  rw [pending_eq client]
  rcases MainState.follower_of_reads reads with place | place
  · have free : (s.processes i).lockTaken .main = false := by
      change (s.processes i).detector.any Operation.locked = false
      rw [(h.gathered.others i apart).2]
      rfl
    rw [mainEffect_of_follower place found free] at performed
    unfold World.perform at performed
    dsimp only at performed
    cases head : s.inbox k with
    | nil =>
        rw [head, h.gathered.not_ended less (own ▸ apart)] at performed
        cases performed
    | cons m rest =>
        rw [List.length_cons]
        omega
  · rw [Process.answering, place]
    exact Nat.succ_pos _

theorem MainState.reads_of_joins {main : MainState} (joins : main.joins = true)
    (alone : main.connecting = false) (running : main ≠ .stopped) : main.reads = true := by
  cases main with
  | startAsFollower => rfl
  | sendOkMsg => rfl
  | findLeader _ => cases alone
  | stopped => exact absurd rfl running
  | _ => cases joins

theorem World.MembersUp.processes (up : s.MembersUp L) {i : ProcId} {s' : World}
    (does : s.Processes L i s') : s'.MembersUp L := by
  intro p k found apart
  rw [does.leader] at found apart
  rw [does.owner]
  exact does.running _ (up p k found apart)

theorem World.Processes.nearer {i : ProcId} {s' : World} (does : s.Processes L i s') :
    s'.toDo L < s.toDo L := by
  refine Prod.Lex.toLex_lt_toLex.mpr (Or.inr ⟨congrArg Process.toDo does.leader, ?_⟩)
  rw [does.started]
  refine Finset.sum_lt_sum (fun j _ => ?_) ⟨i, Finset.mem_range.mpr does.known, does.fewer⟩
  by_cases same : j = i
  · rw [same]
    exact Nat.le_of_lt does.fewer
  · rw [does.others j same]

/-- A step of the leader that makes no connection is one that settles. -/
theorem Attended.settling (h : Attended L s) (serves : (s.processes L).main.serves = true)
    (up : s.MembersUp L) {t : Thread} (alone : t = .main → (s.processes L).main.connecting = false)
    {s' : World} (taken : s.step hosts (.run L t) = some s')
    (performed : s.perform L ((s.processes L).effect t) = some s') :
    Settling hosts L s (.run L t) := by
  have still (s'' : World) (mem : s'' ∈ s.step hosts (.run L t))
      (_ : (s.processes L).running = true) : (s''.processes L).running = true := by
    rw [taken] at mem
    cases mem
    obtain ⟨next, processes, _, advances⟩ := h.leads serves up alone performed
    rw [processes, Function.update_self]
    exact advances.running
  cases t with
  | detector => exact ⟨⟨⟨trivial, still⟩, trivial⟩, alone⟩
  | main =>
      refine ⟨⟨⟨?_, still⟩, reachesLeader_eq_false fun _ _ _ main => ?_⟩, alone⟩
      · change s.MayRun L L (s.processes L).main
        rcases MainState.cases_of_serves serves with here | here | ⟨operation, here⟩
        · rw [here]
          trivial
        · have connects := alone rfl
          rw [here] at connects
          cases connects
        · rw [here]
          trivial
      · rw [main] at serves
        cases serves

/-- Every step brings the group nearer to rest. -/
theorem Underway.step (h : Underway hosts L s) {s' : World} {e : Event}
    (settling : Settling hosts L s e) (taken : s.step hosts e = some s') :
    Underway hosts L s' ∧ s'.toDo L < s.toDo L := by
  have attended := attended_of_reachable h.reach
  cases e with
  | run i t =>
      obtain ⟨undisturbed, alone⟩ := settling
      have reach := h.reach.next undisturbed taken
      rw [World.step] at taken
      split at taken
      · rename_i running
        by_cases leader : i = L
        · subst leader
          obtain ⟨next, processes, owner, advances⟩ :=
            attended.leads h.serves h.up alone taken
          have here : s'.processes i = next := by rw [processes, Function.update_self]
          refine ⟨⟨reach, here ▸ advances.serves, h.up.advances processes owner advances⟩, ?_⟩
          refine Prod.Lex.toLex_lt_toLex.mpr (Or.inl ?_)
          change (s'.processes i).toDo < _
          rw [here]
          exact advances.nearer
        · obtain ⟨joins, idle⟩ := attended.gathered.others i leader
          cases t with
          | detector =>
              rw [effect, idle] at taken
              cases taken
          | main =>
              have reads := MainState.reads_of_joins joins (alone rfl) (of_decide_eq_true running)
              have busy := attended.busy_of_step leader reads taken
              obtain ⟨s'', taken', _, does⟩ := attended.processes hosts h.serves busy
              rw [World.step, if_pos running] at taken'
              rw [show s.perform i ((s.processes i).effect .main) = some s' from taken] at taken'
              cases taken'
              exact ⟨⟨reach, does.leader ▸ h.serves, h.up.processes does⟩, does.nearer⟩
      · cases taken
  | _ => cases settling

/-- The group is at rest when no thread can go on. -/
theorem Underway.atRest (h : Underway hosts L s)
    (stuck : ∀ e, Settling hosts L s e → s.step hosts e = none) : s.AtRest L := by
  have attended := attended_of_reachable h.reach
  have quiet (i : ProcId) : s.pending i = 0 := by
    refine Nat.eq_zero_of_not_pos fun busy => ?_
    obtain ⟨s', taken, settling, _⟩ := attended.processes hosts h.serves busy
    rw [stuck _ settling] at taken
    cases taken
  by_contra away
  obtain ⟨t, s', performed, alone⟩ := attended.canLead h.serves h.up quiet fun accepts idle =>
    away (attended.atRest accepts idle h.up quiet)
  have taken : s.step hosts (.run L t) = some s' := by
    rw [World.step, if_pos (running_of_serves h.serves)]
    exact performed
  rw [stuck _ (attended.settling h.serves h.up alone taken performed)] at taken
  cases taken

/-- **A group comes to rest**, whatever the schedule: as long as process `L` leads undisturbed, its
members are up and nobody joins, the steps of the threads come to an end, and then the leader
accepts and every member has processed everything. -/
theorem comes_to_rest (reach : Reach (World.step hosts) (Undisturbed hosts L) {} s)
    (serves : (s.processes L).main.serves = true) (up : s.MembersUp L)
    (r : Run (World.step hosts) (Settling hosts L) s)
    (goesOn : ∀ n, r.event n = none → ∀ e, Settling hosts L (r.state n) e →
      (r.state n).step hosts e = none) :
    ∃ n, (r.state n).AtRest L ∧ ∀ m, n ≤ m → r.state m = r.state n := by
  have led (n : ℕ) : Underway hosts L (r.state n) :=
    (r.reach n).invariant ⟨reach, serves, up⟩ fun _ _ _ h settling taken =>
      (h.step settling taken).1
  have lower (n : ℕ) (e : Event) (event : r.event n = some e) (_ : True) :
      (r.state (n + 1)).toDo L < (r.state n).toDo L := by
    obtain ⟨settling, taken⟩ := r.happens n e event
    exact ((led n).step settling taken).2
  obtain ⟨n, stuck⟩ := Run.ends (World.toDo L) (fun _ => True) lower
    (fun _ _ _ idle => absurd trivial idle) fun n e _ settling can => by
      obtain ⟨e', event⟩ := Option.ne_none_iff_exists'.mp fun idle => can (goesOn n idle e settling)
      exact ⟨n, e', le_rfl, event, trivial⟩
  refine ⟨n, (led n).atRest fun e => stuck n le_rfl e trivial, fun m later => ?_⟩
  induction m, later using Nat.le_induction with
  | base => rfl
  | succ m later ih =>
      cases event : r.event m with
      | none => exact (r.idle m event).trans ih
      | some e =>
          obtain ⟨settling, taken⟩ := r.happens m e event
          rw [stuck m later e trivial settling] at taken
          cases taken

end

/-! ## Host 1 deletes host 3, which has crashed -/

def reportedRun : List Event :=
  threeHostsRun ++ [.crash 2, .heartBeat 0 3, .tick 0 [3], .tick 0 [3], .tick 0 [3]]

theorem reportedRun_through :
    (replay (World.step [1, 2, 3, 4, 5]) {} reportedRun).isSome = true := by
  decide +kernel

theorem reportedRun_undisturbed :
    allowedAlong (World.step [1, 2, 3, 4, 5]) (Undisturbed [1, 2, 3, 4, 5] 0) {} reportedRun := by
  decide +kernel

def reported : World :=
  (replay (World.step [1, 2, 3, 4, 5]) {} reportedRun).get reportedRun_through

theorem reported_reach :
    Reach (World.step [1, 2, 3, 4, 5]) (Undisturbed [1, 2, 3, 4, 5] 0) {} reported :=
  .of_isSome reportedRun_undisturbed reportedRun_through

theorem reported_connections : ∀ c < reported.opened,
    (reported.processes (reported.owner ⟨c, true⟩)).running = true ∨
      (reported.processes 0).detector.bind Operation.target =
        some (reported.processes (reported.owner ⟨c, true⟩)).me := by
  decide +kernel

theorem reported_membersUp : reported.MembersUp 0 := by
  have h := attended_of_reachable reported_reach
  intro p k found apart
  obtain ⟨less, own, peer⟩ := h.wired.held 0 p k (Or.inl found)
  have accepted := (h.gathered.ends k less).mp own
  have other : k.peer = ⟨k.connection, true⟩ := by
    unfold Socket.peer
    rw [accepted]
    rfl
  rcases reported_connections k.connection less with up | target
  · rw [other]
    exact up
  · rw [other] at peer
    rw [target, peer] at apart
    exact absurd rfl apart

def settlingRun : List Event :=
  List.replicate 4 (.run 0 .detector) ++ mainSteps 1 2 ++ List.replicate 7 (.run 0 .detector) ++
  mainSteps 1 1

theorem settlingRun_through :
    (replay (World.step [1, 2, 3, 4, 5]) reported settlingRun).isSome = true := by
  decide +kernel

theorem settlingRun_settling :
    allowedAlong (World.step [1, 2, 3, 4, 5]) (Settling [1, 2, 3, 4, 5] 0) reported
      settlingRun := by
  decide +kernel

def settled : World :=
  (replay (World.step [1, 2, 3, 4, 5]) reported settlingRun).get settlingRun_through

theorem settled_stuck : ∀ i < settled.started, ∀ t ∈ [Thread.main, .detector],
    Settling [1, 2, 3, 4, 5] 0 settled (.run i t) →
      (settled.step [1, 2, 3, 4, 5] (.run i t)).isSome = false := by
  decide +kernel

def reportedSettles : Run (World.step [1, 2, 3, 4, 5]) (Settling [1, 2, 3, 4, 5] 0) reported :=
  .ofReplay settlingRun settlingRun_settling settlingRun_through

theorem comes_to_rest_reported :
    (reported.processes 0).detector = some (.call 3 .DEL) ∧
      ∃ n, (reportedSettles.state n).AtRest 0 ∧
        ∀ m, n ≤ m → reportedSettles.state m = reportedSettles.state n := by
  refine ⟨by decide +kernel, comes_to_rest reported_reach (by decide +kernel) reported_membersUp
    reportedSettles fun n ended e settling => ?_⟩
  have last : reportedSettles.state n = settled :=
    stateAt_last (Option.some_get settlingRun_through).symm (List.getElem?_eq_none_iff.mp ended)
  rw [last] at settling ⊢
  cases e with
  | run i t =>
      by_cases known : i < settled.started
      · have stuck := settled_stuck i known t (by cases t <;> decide) settling
        exact Option.not_isSome_iff_eq_none.mp (Bool.eq_false_iff.mp stuck)
      · have wired : Wired settled := wired_of_reachable (reported_reach.always.trans
          (Reach.of_isSome settlingRun_settling settlingRun_through).always)
        rw [World.step, if_neg fun running => known (wired.started i running)]
  | _ => cases settling

end GroupComm.Lab2
