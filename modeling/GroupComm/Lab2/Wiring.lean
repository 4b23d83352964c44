import GroupComm.Lab2.LocalInvariant
import GroupComm.Lab2.WorldStep

/-!
# Who is connected to whom

What holds of the sockets of every reachable world: a process that keeps a connection under
some peer owns one end of it, and the other end belongs to a process on the host of that
peer, which is another host.
-/

namespace GroupComm.Lab2

open World Transition

/-! ## What the steps of a thread say about sockets -/

theorem ThreadStep.me_eq {pr next : Process} {t : Thread} {label : Label}
    (step : ThreadStep pr t label next) : next.me = pr.me := by
  cases step
  case followerReceives m _ _ _ => cases m <;> rfl
  case handleLeaderCrash =>
    unfold Process.handleLeaderCrash
    dsimp only
    split <;> rfl
  all_goals simp [Process.terminate, Process.beginOperation, Process.endOperation, Process.install]

/-- A process only connects to other hosts. -/
theorem ThreadStep.connected_ne {pr next : Process} {t : Thread} {peer : PeerId} {k : Socket}
    (step : ThreadStep pr t (.connected peer k) next) (sound : pr.Sound) : peer ≠ pr.me := by
  cases step with
  | dies fatal => cases fatal
  | leaderFound place other => exact other
  | reconnect place =>
      have notIn := sound.notToItself
      rw [place] at notIn
      rintro rfl
      exact notIn List.mem_cons_self

theorem Process.greets_setOperation (pr : Process) {operation : Operation} {t : Thread}
    {k : Socket} (greets : (pr.setOperation operation t).main = .greet k) :
    pr.main = .greet k := by
  rcases pr.main_setOperation operation t with same | other | other
  · rw [← same]
    exact greets
  · rw [other] at greets
    cases greets
  · rw [other] at greets
    cases greets

theorem Process.greets_finishOperation (pr : Process) {t : Thread} {k : Socket}
    (greets : (pr.finishOperation t).main = .greet k) : pr.main = .greet k := by
  rcases pr.main_finishOperation t with same | other
  · rw [← same]
    exact greets
  · rw [other] at greets
    cases greets

/-- A process that greets a connection has just accepted it. -/
theorem ThreadStep.greets {pr next : Process} {t : Thread} {label : Label}
    (step : ThreadStep pr t label next) {k : Socket} (greets : next.main = .greet k) :
    pr.main = .greet k ∨ ∃ p, label = .accepted true k p := by
  cases step
  case followerReceives m _ _ _ =>
    cases m with
    | request m => cases greets
    | newView m => exact Or.inl greets
    | ok m => cases greets
    | newLeader m => cases greets
  case handleLeaderCrash =>
    unfold Process.handleLeaderCrash at greets
    dsimp only at greets
    split at greets <;> cases greets
  case waitForNewLeaderMsg =>
    cases greets
    exact Or.inr ⟨_, rfl⟩
  case delivered => exact Or.inl (Process.greets_finishOperation pr greets)
  case call =>
    exact Or.inl
      (Process.greets_setOperation { pr with service := pr.service.countRequest } greets)
  case lock => exact Or.inl (Process.greets_setOperation (pr.beginOperation _) greets)
  case newView => exact Or.inl (Process.greets_setOperation (pr.endOperation _) greets)
  case sendRequestMsg => exact Or.inl (Process.greets_setOperation pr greets)
  case requestsSent => exact Or.inl (Process.greets_setOperation pr greets)
  case waitForOkMsg => exact Or.inl (Process.greets_setOperation pr greets)
  case printNewlyInstalledView => exact Or.inl (Process.greets_setOperation pr greets)
  case sendNewViewMsg => exact Or.inl (Process.greets_setOperation pr greets)
  case lockView => exact Or.inl (Process.greets_setOperation pr greets)
  case deliver => exact Or.inl (Process.greets_setOperation pr greets)
  all_goals cases greets

theorem Process.follows_setOperation (pr : Process) {operation : Operation} {t : Thread}
    (follows : (pr.setOperation operation t).main.follows = true) :
    (pr.setOperation operation t).main = pr.main := by
  rcases pr.main_setOperation operation t with same | other | other
  · exact same
  · rw [other] at follows
    cases follows
  · rw [other] at follows
    cases follows

/-- A follower was one before, and stops waiting for a new leader only by accepting one. -/
theorem ThreadStep.follows {pr next : Process} {t : Thread} {label : Label}
    (step : ThreadStep pr t label next) (follows : next.main.follows = true) :
    pr.main.follows = true ∧ (next.main ≠ .waitForNewLeaderMsg →
      pr.main ≠ .waitForNewLeaderMsg ∨ ∃ k p, label = .accepted true k p) := by
  have unchanged : next.main = pr.main → pr.main.follows = true ∧
      (next.main ≠ .waitForNewLeaderMsg →
        pr.main ≠ .waitForNewLeaderMsg ∨ ∃ k p, label = .accepted true k p) := by
    intro same
    rw [same] at follows ⊢
    exact ⟨follows, Or.inl⟩
  have follower : ∀ {place : MainState}, pr.main = place → place.follows = true →
      place ≠ .waitForNewLeaderMsg → pr.main.follows = true ∧
        (next.main ≠ .waitForNewLeaderMsg →
          pr.main ≠ .waitForNewLeaderMsg ∨ ∃ k p, label = .accepted true k p) := by
    rintro place rfl before other
    exact ⟨before, fun _ => Or.inl other⟩
  cases step
  case call =>
    exact unchanged
      (Process.follows_setOperation { pr with service := pr.service.countRequest } follows)
  case lock => exact unchanged (Process.follows_setOperation (pr.beginOperation _) follows)
  case newView => exact unchanged (Process.follows_setOperation (pr.endOperation _) follows)
  case delivered =>
    rcases pr.main_finishOperation t with same | other
    · exact unchanged same
    · rw [other] at follows
      cases follows
  case waitForNewLeaderMsg place =>
    refine ⟨by rw [place]; rfl, fun _ => Or.inr ⟨_, _, rfl⟩⟩
  case dies => cases follows
  case noLeaderFound => cases follows
  case startAsLeader => cases follows
  case accept => cases follows
  case reconnect => cases follows
  case unreachable => cases follows
  case reconnected => cases follows
  case introduce => cases follows
  case introduceFailed => cases follows
  case pendingRequest => cases follows
  case notConnected => cases follows
  case completeRequest => cases follows
  case nothingPending => cases follows
  case skipMyself place => exact follower place rfl nofun
  case leaderFound place _ => exact follower place rfl nofun
  case noLeaderThere place _ => exact follower place rfl nofun
  case followerReceives place _ _ => exact follower place rfl nofun
  case leaderLost place _ => exact follower place rfl nofun
  case sendOkMsg place _ => exact follower place rfl nofun
  case okMsgFailed place _ => exact follower place rfl nofun
  case waitForLeaderCrash place _ => exact follower place rfl nofun
  case handleLeaderCrash place _ => exact follower place rfl nofun
  case greet place => exact follower place rfl nofun
  case sendPendingRequestMsg place _ => exact follower place rfl nofun
  all_goals exact unchanged (Process.follows_setOperation pr follows)

/-! ## The invariant -/

structure Wired (s : World) : Prop where
  sound : ∀ i, (s.processes i).Sound
  started : ∀ i, (s.processes i).running = true → i < s.started
  owners : ∀ k : Socket, k.connection < s.opened → s.owner k < s.started
  /-- The two ends of a connection are on different hosts. -/
  apart : ∀ k : Socket, k.connection < s.opened →
    (s.processes (s.owner k.peer)).me ≠ (s.processes (s.owner k)).me
  held : ∀ i p k, (s.processes i).Holds p k → k.connection < s.opened ∧ s.owner k = i ∧
    (s.processes (s.owner k.peer)).me = p
  greeting : ∀ i k, (s.processes i).main = .greet k → k.connection < s.opened ∧ s.owner k = i
  waiting : ∀ i, ∀ k ∈ s.backlog i, k.connection < s.opened ∧ s.owner k = i
  unopened : ∀ k : Socket, s.opened ≤ k.connection → s.inbox k = []
  /-- A process that follows has nobody waiting, unless it waits for a new leader. -/
  unheard : ∀ i, (s.processes i).main.follows = true →
    (s.processes i).main ≠ .waitForNewLeaderMsg → s.backlog i = []

/-- Nobody is at both ends of a connection. -/
theorem Wired.owner_peer_ne {s : World} (wired : Wired s) {k : Socket}
    (less : k.connection < s.opened) : s.owner k.peer ≠ s.owner k := by
  intro same
  apply wired.apart k less
  rw [same]

namespace Wired

variable {s : World}

theorem init : Wired {} where
  sound i := by
    constructor <;> simp [MainState.locked, MainState.follows, MainState.toConnect]
  started i running := by cases running
  owners k less := absurd less (Nat.not_lt_zero _)
  apart k less := absurd less (Nat.not_lt_zero _)
  held i p k holds := by
    rcases holds with found | ⟨_, _, _, main⟩
    · cases found
    · cases main
  greeting i k main := by cases main
  waiting i k mem := absurd mem List.not_mem_nil
  unopened _ _ := rfl
  unheard _ _ _ := rfl

/-- One process changes, and what it holds is wired already. -/
theorem setProcess (wired : Wired s) {i : ProcId} {next : Process}
    (running : (s.processes i).running = true) (me : next.me = (s.processes i).me)
    (sound : next.Sound)
    (held : ∀ p k, next.Holds p k → k.connection < s.opened ∧ s.owner k = i ∧
      (s.processes (s.owner k.peer)).me = p)
    (greeting : ∀ k, next.main = .greet k → k.connection < s.opened ∧ s.owner k = i)
    (unheard : next.main.follows = true → next.main ≠ .waitForNewLeaderMsg →
      s.backlog i = []) :
    Wired (s.setProcess i next) := by
  have sameMe : ∀ j, ((s.setProcess i next).processes j).me = (s.processes j).me := by
    intro j
    change (Function.update s.processes i next j).me = _
    rw [Function.update_apply]
    split
    · rename_i same
      rw [same, me]
    · rfl
  have everywhere : ∀ {P : ProcId → Process → Prop}, P i next → (∀ j, P j (s.processes j)) →
      ∀ j, P j ((s.setProcess i next).processes j) := by
    intro P here there j
    change P j (Function.update s.processes i next j)
    rw [Function.update_apply]
    split
    · rename_i same
      rw [same]
      exact here
    · exact there j
  constructor
  · exact everywhere (P := fun _ pr => pr.Sound) sound wired.sound
  · exact everywhere (P := fun j pr => pr.running = true → j < s.started)
      (fun _ => wired.started i running) wired.started
  · exact wired.owners
  · intro k less
    rw [sameMe, sameMe]
    exact wired.apart k less
  · have all := everywhere (P := fun j pr => ∀ p k, pr.Holds p k → k.connection < s.opened ∧
      s.owner k = j ∧ (s.processes (s.owner k.peer)).me = p) held wired.held
    intro j p k holds
    rw [sameMe]
    exact all j p k holds
  · exact everywhere (P := fun j pr => ∀ k, pr.main = .greet k → k.connection < s.opened ∧
      s.owner k = j) greeting wired.greeting
  · exact wired.waiting
  · exact wired.unopened
  · exact everywhere (P := fun j pr => pr.main.follows = true → pr.main ≠ .waitForNewLeaderMsg →
      s.backlog j = []) unheard wired.unheard

/-- The inboxes of the connections in use change. -/
theorem setInbox (wired : Wired s) {k : Socket} (less : k.connection < s.opened)
    (messages : List Msg) : Wired { s with inbox := Function.update s.inbox k messages } := by
  obtain ⟨sound, started, owners, apart, held, greeting, waiting, unopened, unheard⟩ := wired
  refine ⟨sound, started, owners, apart, held, greeting, waiting, fun k' more => ?_, unheard⟩
  dsimp only at more ⊢
  rw [Function.update_of_ne]
  · exact unopened k' more
  · rintro rfl
    omega

theorem next_ne {k : Socket} (less : k.connection < s.opened) :
    k ≠ s.nextSocket ∧ k ≠ s.nextSocket.peer := by
  constructor
  · rintro rfl
    exact Nat.lt_irrefl _ less
  · rintro rfl
    exact Nat.lt_irrefl _ less

theorem owner_openConnection {i j : ProcId} {k : Socket} (less : k.connection < s.opened) :
    (s.openConnection i j).owner k = s.owner k := by
  obtain ⟨notNext, notPeer⟩ := next_ne less
  unfold openConnection
  dsimp only
  rw [Function.update_of_ne notPeer, Function.update_of_ne notNext]

theorem owner_openConnection_next (i j : ProcId) :
    (s.openConnection i j).owner s.nextSocket = i ∧
      (s.openConnection i j).owner s.nextSocket.peer = j := by
  unfold openConnection
  dsimp only
  constructor
  · rw [Function.update_of_ne (Socket.peer_ne _).symm, Function.update_self]
  · rw [Function.update_self]

/-- A socket of a world with one more connection. -/
theorem socket_cases {k : Socket} (less : k.connection < s.opened + 1) :
    k.connection < s.opened ∨ k = s.nextSocket ∨ k = s.nextSocket.peer := by
  rcases Nat.lt_succ_iff_lt_or_eq.mp less with old | new
  · exact Or.inl old
  · obtain ⟨connection, connector⟩ := k
    dsimp only at new
    subst new
    cases connector with
    | true => exact Or.inr (Or.inl rfl)
    | false => exact Or.inr (Or.inr rfl)

theorem openConnection (wired : Wired s) {i j : ProcId} (less : i < s.started)
    (known : j < s.started) (listens : (s.processes j).main.listening = true)
    (other : (s.processes j).me ≠ (s.processes i).me) : Wired (s.openConnection i j) := by
  obtain ⟨sound, started, owners, apart, held, greeting, waiting, unopened, unheard⟩ := wired
  have kept : ∀ k : Socket, k.connection < s.opened → ∀ l, s.owner k = l →
      k.connection < s.opened + 1 ∧ (s.openConnection i j).owner k = l := fun k less l same =>
    ⟨Nat.lt_succ_of_lt less, (owner_openConnection less).trans same⟩
  constructor
  · exact sound
  · exact started
  · intro k less'
    rcases socket_cases less' with old | rfl | rfl
    · rw [owner_openConnection old]
      exact owners k old
    · rw [(owner_openConnection_next i j).1]
      exact less
    · rw [(owner_openConnection_next i j).2]
      exact known
  · intro k less'
    rcases socket_cases less' with old | rfl | rfl
    · rw [owner_openConnection old, owner_openConnection (k := k.peer) old]
      exact apart k old
    · rw [(owner_openConnection_next i j).1, (owner_openConnection_next i j).2]
      exact other
    · rw [Socket.peer_peer, (owner_openConnection_next i j).1, (owner_openConnection_next i j).2]
      exact other.symm
  · intro l p k holds
    obtain ⟨old, own, peer⟩ := held l p k holds
    obtain ⟨less', own'⟩ := kept k old l own
    refine ⟨less', own', ?_⟩
    rw [owner_openConnection (k := k.peer) old]
    exact peer
  · intro l k main
    obtain ⟨old, own⟩ := greeting l k main
    exact kept k old l own
  · intro l k mem
    change k ∈ Function.update s.backlog j (s.backlog j ++ [s.nextSocket.peer]) l at mem
    rw [Function.update_apply] at mem
    split at mem
    · rename_i same
      subst same
      rcases List.mem_append.mp mem with old | new
      · obtain ⟨old, own⟩ := waiting l k old
        exact kept k old l own
      · rw [List.mem_singleton] at new
        subst new
        exact ⟨Nat.lt_succ_self _, (owner_openConnection_next i l).2⟩
    · obtain ⟨old, own⟩ := waiting l k mem
      exact kept k old l own
  · intro k more
    change s.opened + 1 ≤ k.connection at more
    unfold World.openConnection
    dsimp only
    have notPeer : k ≠ s.nextSocket.peer := by
      rintro rfl
      exact Nat.lt_irrefl _ more
    have notNext : k ≠ s.nextSocket := by
      rintro rfl
      exact Nat.lt_irrefl _ more
    rw [Function.update_of_ne notPeer, Function.update_of_ne notNext]
    exact unopened k (Nat.le_of_succ_le more)
  · intro l follows elsewhere
    change Function.update s.backlog j (s.backlog j ++ [s.nextSocket.peer]) l = []
    have other : l ≠ j := by
      rintro rfl
      change (s.processes l).main.follows = true at follows
      change (s.processes l).main ≠ .waitForNewLeaderMsg at elsewhere
      revert listens follows elsewhere
      cases (s.processes l).main <;> simp [MainState.listening, MainState.follows]
    rw [Function.update_of_ne other]
    exact unheard l follows elsewhere

theorem acceptConnection (wired : Wired s) {i : ProcId} {close : Bool} {client : Socket}
    {rest : List Socket} (head : s.backlog i = client :: rest) :
    Wired (s.acceptConnection i close rest) := by
  obtain ⟨sound, started, owners, apart, held, greeting, waiting, unopened, unheard⟩ := wired
  refine ⟨sound, started, owners, apart, held, greeting, fun l k mem => ?_, unopened,
    fun l follows elsewhere => ?_⟩
  · apply waiting l k
    change k ∈ Function.update s.backlog i (if close then [] else rest) l at mem
    rw [Function.update_apply] at mem
    split at mem
    · rename_i same
      subst same
      rw [head]
      split at mem
      · cases mem
      · exact List.mem_cons_of_mem _ mem
    · exact mem
  · have none := unheard l follows elsewhere
    change Function.update s.backlog i (if close then [] else rest) l = []
    rw [Function.update_of_ne]
    · exact none
    · rintro rfl
      rw [head] at none
      cases none

end Wired

/-- A process starts on a host where none is running. -/
theorem Wired.start {s : World} (wired : Wired s) (p : PeerId) (hosts : List PeerId) :
    Wired { s.setProcess s.started { me := p, main := .findLeader hosts } with
      started := s.started + 1 } := by
  obtain ⟨sound, started, owners, apart, held, greeting, waiting, unopened, unheard⟩ := wired
  have same : ∀ k : Socket, k.connection < s.opened →
      Function.update s.processes s.started { me := p, main := .findLeader hosts } (s.owner k) =
        s.processes (s.owner k) := fun k less => by
    rw [Function.update_of_ne]
    exact Nat.ne_of_lt (owners k less)
  constructor
  · intro i
    change (Function.update s.processes s.started _ i).Sound
    rw [Function.update_apply]
    split
    · exact Process.Sound.fresh p hosts
    · exact sound i
  · intro i running
    change (Function.update s.processes s.started _ i).running = true at running
    rw [Function.update_apply] at running
    split at running
    · rename_i here
      exact here ▸ Nat.lt_succ_self _
    · exact Nat.lt_succ_of_lt (started i running)
  · intro k less
    exact Nat.lt_succ_of_lt (owners k less)
  · intro k less
    change (Function.update s.processes s.started _ (s.owner k.peer)).me ≠
      (Function.update s.processes s.started _ (s.owner k)).me
    rw [same k less, same k.peer less]
    exact apart k less
  · intro i q k holds
    change (Function.update s.processes s.started _ i).Holds q k at holds
    rw [Function.update_apply] at holds
    split at holds
    · rcases holds with found | ⟨_, _, _, main⟩
      · cases found
      · cases main
    · obtain ⟨less, own, peer⟩ := held i q k holds
      refine ⟨less, own, ?_⟩
      change (Function.update s.processes s.started _ (s.owner k.peer)).me = q
      rw [same k.peer less]
      exact peer
  · intro i k main
    change (Function.update s.processes s.started _ i).main = _ at main
    rw [Function.update_apply] at main
    split at main
    · cases main
    · exact greeting i k main
  · exact waiting
  · exact unopened
  · intro i follows elsewhere
    change (Function.update s.processes s.started _ i).main.follows = true at follows
    change (Function.update s.processes s.started _ i).main ≠ _ at elsewhere
    rw [Function.update_apply] at follows elsewhere
    split at follows
    · rename_i here
      refine List.eq_nil_iff_forall_not_mem.mpr fun k mem => ?_
      obtain ⟨less, own⟩ := waiting i k mem
      have known := owners k less
      rw [own, here] at known
      exact Nat.lt_irrefl _ known
    · rename_i other
      rw [if_neg other] at elsewhere
      exact unheard i follows elsewhere

/-- A process sends on connections it holds. -/
theorem ThreadStep.sent_holds {pr next : Process} {t : Thread} {k : Socket} {m : Msg}
    (step : ThreadStep pr t (.sent k m) next) : ∃ p, pr.Holds p k := by
  cases step with
  | dies fatal => cases fatal
  | sendRequestMsg place found => exact ⟨_, Or.inl found⟩
  | deliver place found => exact ⟨_, Or.inl found⟩
  | sendOkMsg place found => exact ⟨_, Or.inl found⟩
  | introduce place => exact ⟨_, Or.inr ⟨_, _, _, place⟩⟩
  | sendPendingRequestMsg place found => exact ⟨_, Or.inl found⟩

namespace Wired

variable {s : World}

/-- A thread takes a step, on connections that are wired. -/
theorem thread (wired : Wired s) {i : ProcId} {t : Thread} {label : Label} {next : Process}
    (running : (s.processes i).running = true) (step : ThreadStep (s.processes i) t label next)
    (opened : ∀ p k, (label = .connected p k ∨ ∃ close, label = .accepted close k p) →
      k.connection < s.opened ∧ s.owner k = i ∧ (s.processes (s.owner k.peer)).me = p)
    (emptied : ∀ k p, label = .accepted true k p → s.backlog i = []) :
    Wired (s.setProcess i next) := by
  refine wired.setProcess running step.me_eq (step.sound (wired.sound i)) ?_ ?_ ?_
  · intro p k holds
    rcases step.holds holds with before | new | ⟨close, new⟩
    · exact wired.held i p k before
    · exact opened p k (Or.inl new)
    · exact opened p k (Or.inr ⟨close, new⟩)
  · intro k greets
    rcases step.greets greets with before | ⟨p, new⟩
    · exact wired.greeting i k before
    · obtain ⟨less, own, _⟩ := opened p k (Or.inr ⟨true, new⟩)
      exact ⟨less, own⟩
  · intro follows elsewhere
    obtain ⟨before, apartOrNew⟩ := step.follows follows
    rcases apartOrNew elsewhere with other | ⟨k, p, new⟩
    · exact wired.unheard i before other
    · exact emptied k p new

theorem opened_of_holds (wired : Wired s) {i : ProcId} {t : Thread} {k : Socket} {m : Msg}
    {next : Process} (step : ThreadStep (s.processes i) t (.sent k m) next) :
    k.connection < s.opened := by
  obtain ⟨p, holds⟩ := step.sent_holds
  exact (wired.held i p k holds).1

theorem opened_of_inbox (wired : Wired s) {k : Socket} {m : Msg} {rest : List Msg}
    (head : s.inbox k = m :: rest) : k.connection < s.opened := by
  by_contra more
  rw [wired.unopened k (Nat.not_lt.mp more)] at head
  cases head

/-- A step that neither connects nor accepts. -/
theorem thread_quiet (wired : Wired s) {i : ProcId} {t : Thread} {label : Label} {next : Process}
    (running : (s.processes i).running = true) (step : ThreadStep (s.processes i) t label next)
    (notConnected : ∀ p k, label ≠ .connected p k)
    (notAccepted : ∀ close k p, label ≠ .accepted close k p) : Wired (s.setProcess i next) := by
  refine wired.thread running step ?_ ?_
  · rintro p k (new | ⟨close, new⟩)
    · exact (notConnected p k new).elim
    · exact (notAccepted close k p new).elim
  · intro k p new
    exact (notAccepted true k p new).elim

end Wired

/-- **Wiring** is kept by every event. -/
theorem WorldStep.wired {hosts : List PeerId} {s s' : World} {e : Event}
    (h : WorldStep hosts s e s') (wired : Wired s) : Wired s' := by
  cases h with
  | start listed down => exact wired.start _ hosts
  | crash running =>
      exact wired.setProcess running rfl .terminate
        (fun p k holds => wired.held _ p k
          (holds.back_main rfl fun _ _ _ _ _ same => nomatch same))
        (fun _ main => nomatch main) (fun follows => nomatch follows)
  | heartBeat running idle other =>
      exact wired.setProcess running rfl ((wired.sound _).heartBeat _) (wired.held _)
        (wired.greeting _) (wired.unheard _)
  | @tick i order running idle all =>
      have sound := (wired.sound i).tick order
      obtain ⟨leaderCrashed, detector, heartBeats, suspect, same⟩ := (s.processes i).tick_eq order
      rw [same] at sound ⊢
      exact wired.setProcess running rfl sound (wired.held i) (wired.greeting i) (wired.unheard i)
  | silent running step =>
      have kept := wired.thread_quiet running step nofun nofun
      exact ⟨kept.sound, kept.started, kept.owners, kept.apart, kept.held, kept.greeting,
        kept.waiting, kept.unopened, kept.unheard⟩
  | @sent i t client m next running step =>
      have less := wired.opened_of_holds step
      have delivered : Wired (s.deliver client.peer m) := wired.setInbox (k := client.peer) less _
      exact delivered.thread_quiet running step nofun nofun
  | failed running ended step => exact wired.thread_quiet running step nofun nofun
  | received running head step =>
      exact (wired.setInbox (wired.opened_of_inbox head) _).thread_quiet running step nofun nofun
  | lost running empty ended step => exact wired.thread_quiet running step nofun nofun
  | @connected i t peer j next running known listens step =>
      have other : (s.processes j).me ≠ (s.processes i).me := by
        rw [listens.1]
        exact step.connected_ne (wired.sound i)
      refine (wired.openConnection (wired.started i running) known listens.2 other).thread running
        step ?_ (fun _ _ new => nomatch new)
      rintro p k (new | ⟨_, new⟩)
      · cases new
        refine ⟨Nat.lt_succ_self _, (Wired.owner_openConnection_next i j).1, ?_⟩
        rw [(Wired.owner_openConnection_next i j).2]
        exact listens.1
      · cases new
  | refused running deaf step => exact wired.thread_quiet running step nofun nofun
  | @accepted i t close client rest next running head step =>
      refine (wired.acceptConnection head).thread running step ?_ ?_
      · rintro p k (new | ⟨_, new⟩)
        · cases new
        · cases new
          obtain ⟨less, own⟩ := wired.waiting i client (by rw [head]; exact List.mem_cons_self)
          exact ⟨less, own, rfl⟩
      · intro k p new
        cases new
        change Function.update s.backlog i _ i = []
        rw [Function.update_self]
        rfl

/-- Every reachable world is wired. -/
theorem wired_of_reachable {hosts : List PeerId} {s : World}
    (reach : Reach (World.step hosts) Always {} s) : Wired s :=
  reach.invariant .init fun _ _ _ wired _ taken => (worldStep_of_step taken).wired wired

/-- A process that has not been started is as it will be. -/
theorem unstarted_of_reachable {hosts : List PeerId} {s : World}
    (reach : Reach (World.step hosts) Always {} s) :
    ∀ i, s.started ≤ i → s.processes i = { me := 0 } := by
  refine reach.invariant_with (P := fun s => ∀ i, s.started ≤ i → s.processes i = { me := 0 })
    (Q := Wired) (fun _ before => wired_of_reachable before) (fun _ _ => rfl) ?_
  intro s e s' wired unstarted _ taken
  have kept : ∀ {i : ProcId} {next : Process}, (s.processes i).running = true →
      s'.processes = Function.update s.processes i next → s'.started = s.started →
        ∀ j, s'.started ≤ j → s'.processes j = { me := 0 } := by
    intro i next running processes started j more
    rw [started] at more
    rw [processes, Function.update_of_ne]
    · exact unstarted j more
    · exact (Nat.lt_of_lt_of_le (wired.started i running) more).ne'
  cases worldStep_of_step taken with
  | start listed down =>
      intro j more
      change Function.update s.processes s.started _ j = _
      rw [Function.update_of_ne (Nat.lt_of_succ_le more).ne']
      exact unstarted j (Nat.le_of_succ_le more)
  | crash running => exact kept running rfl rfl
  | heartBeat running _ _ => exact kept running rfl rfl
  | tick running _ _ => exact kept running rfl rfl
  | silent running _ => exact kept running rfl rfl
  | sent running _ => exact kept running rfl rfl
  | failed running _ _ => exact kept running rfl rfl
  | received running _ _ => exact kept running rfl rfl
  | lost running _ _ _ => exact kept running rfl rfl
  | connected running _ _ _ => exact kept running rfl rfl
  | refused running _ _ => exact kept running rfl rfl
  | accepted running _ _ => exact kept running rfl rfl

/-! ## Reading -/

section

variable {pr : Process} {t : Thread} {client : Socket} {received : Msg → Process} {lost : Process}

theorem Process.held_of_operation {operation : Operation}
    (eff : pr.operationEffect t operation = .receive client received lost) :
    ∃ p, pr.service.tcpClientMap p = some client := by
  unfold operationEffect sendTo at eff
  split at eff
  · cases eff
  · split at eff <;> cases eff
  · split at eff <;> cases eff
  · cases eff
  · split at eff
    · rename_i found
      cases eff
      exact ⟨_, found⟩
    · cases eff
  · cases eff
  · split at eff <;> cases eff
  · cases eff
  · split at eff <;> cases eff
  · split at eff <;> cases eff
  · cases eff

/-- A process reads on connections that it has. -/
theorem Process.held_of_receive (eff : pr.effect t = .receive client received lost) :
    (∃ p, pr.service.tcpClientMap p = some client) ∨ pr.main = .greet client := by
  cases t with
  | detector =>
      unfold effect at eff
      dsimp only at eff
      split at eff
      · exact Or.inl (held_of_operation eff)
      · cases eff
  | main =>
      change pr.mainEffect = _ at eff
      unfold mainEffect sendToLeader at eff
      split at eff
      · split at eff <;> cases eff
      · cases eff
      · split at eff <;> cases eff
      · cases eff
      · exact Or.inl (held_of_operation eff)
      · split at eff
        · rename_i found
          split at eff
          · cases eff
          · cases eff
            exact Or.inl ⟨_, found⟩
        · cases eff
      · split at eff <;> cases eff
      · split at eff <;> cases eff
      · split at eff <;> cases eff
      · cases eff
      · cases eff
      · cases eff
      · split at eff
        · rename_i found
          cases eff
          exact Or.inl ⟨_, found⟩
        · cases eff
      · split at eff <;> cases eff
      · exact Or.inl (held_of_operation eff)
      · cases eff
      · rename_i place
        cases eff
        exact Or.inr place
      · split at eff <;> cases eff
      · cases eff

end

/-- What is read has been sent to the process that reads it. -/
theorem Wired.reads_own {hosts : List PeerId} {s s' : World} (wired : Wired s) {i : ProcId}
    {t : Thread} (taken : s.step hosts (.run i t) = some s') {k : Socket} {m : Msg}
    {rest : List Msg} (head : s.inbox k = m :: rest) (read : s'.inbox k = rest) :
    s.owner k = i := by
  have unread : s'.inbox k ≠ s.inbox k := by
    rw [read, head]
    exact (List.cons_ne_self m rest).symm
  cases worldStep_of_step taken with
  | silent => exact absurd rfl unread
  | @sent _ _ client m' =>
      have longer : Function.update s.inbox client.peer (s.inbox client.peer ++ [m']) k = rest :=
        read
      rw [Function.update_apply] at longer
      split at longer
      · rename_i same
        rw [← same, head] at longer
        have lengths := congrArg List.length longer
        rw [List.length_append, List.length_cons] at lengths
        omega
      · rw [head] at longer
        exact absurd longer (List.cons_ne_self m rest)
  | @received _ _ client _ _ _ _ _ _ reads =>
      obtain ⟨received, lost, eff⟩ := reads
      by_cases same : k = client
      · rw [same]
        rcases Process.held_of_receive eff with ⟨p, found⟩ | greets
        · exact (wired.held i p client (Or.inl found)).2.1
        · exact (wired.greeting i client greets).2
      · exact absurd (Function.update_of_ne same _ _) unread
  | lost => exact absurd rfl unread
  | connected =>
      have less := wired.opened_of_inbox head
      obtain ⟨notNext, notPeer⟩ := Wired.next_ne less
      refine absurd ?_ unread
      change Function.update (Function.update s.inbox _ _) _ _ k = _
      rw [Function.update_of_ne notPeer, Function.update_of_ne notNext]
  | refused => exact absurd rfl unread
  | accepted => exact absurd rfl unread

end GroupComm.Lab2
