import GroupComm.Lab2.Tracked

/-!
# View agreement under one leader

As long as one process leads and handles one change at a time, every follower installs a
contiguous segment of the leader's views, from the one that has admitted it on
(`agreement_of_stable`).
-/

namespace GroupComm.Lab2

open MembershipService World Transition Process

/-! ## A step of the system -/

section

variable {hosts : List PeerId} {L : ProcId} {s s' : World} {e : Event}

theorem Process.owesView_tick {pr : Process} {order : List PeerId} (idle : pr.detector = none)
    (p : PeerId) : (pr.tick order).owesView p = pr.owesView p := by
  have owes {next : Process} (main : next.main = pr.main)
      (detector : next.detector.any (fun operation => operation.owesView p) = false) :
      next.owesView p = pr.owesView p := by
    have before : pr.operation .detector = none := idle
    have after : (next.operation .detector).any (fun operation => operation.owesView p) = false :=
      detector
    have same : next.operation .main = pr.operation .main := by
      unfold operation
      rw [main]
    unfold owesView
    rw [after, before, same]
    rfl
  cases deletes : pr.startsDeletion order with
  | false =>
      obtain ⟨_, _, _, same⟩ := Process.tick_undeleting deletes
      rw [same]
      refine owes rfl ?_
      change pr.detector.any _ = false
      rw [idle]
      rfl
  | true =>
      rw [startsDeletion, Bool.and_eq_true, decide_eq_true_iff] at deletes
      obtain ⟨leads, reports⟩ := deletes
      obtain ⟨crashedPeerId, reported⟩ := Option.isSome_iff_exists.mp reports
      unfold Process.tick
      dsimp only
      rw [reported]
      dsimp only
      unfold handlePeerFailure
      rw [if_pos leads]
      exact owes rfl rfl

/-- A leader that ends in a step has lost a connection. -/
theorem ThreadStep.stops {pr next : Process} {t : Thread} {label : Label}
    (step : ThreadStep pr t label next) (h : pr.Leading)
    (broken : (∃ k m, label = .failed k m) ∨ ∃ k, label = .lost k) : next.running = false := by
  have elsewhere {place : MainState} (here : pr.main = place) (other : place.heads = false) :
      False := by
    have heads := h.place
    rw [here, other] at heads
    cases heads
  rcases broken with ⟨k, m, rfl⟩ | ⟨k, rfl⟩
  · cases step with
    | dies _ => rfl
    | okMsgFailed place _ => exact (elsewhere place rfl).elim
    | introduceFailed place => exact (elsewhere place rfl).elim
  · cases step with
    | dies _ => rfl
    | leaderLost place _ => exact (elsewhere place rfl).elim

/-- The leader goes on leading. -/
theorem Tracked.survives {next : Process} {t : Thread} {label : Label} (h : Tracked L s)
    (wired : Wired s) (step : ThreadStep (s.processes L) t label next)
    (running : (s.processes L).running = true)
    (up : (s.processes L).running = true → (s'.processes L).running = true)
    (processes : s'.processes = Function.update s.processes L next)
    (notConnected : ∀ p k, label ≠ .connected p k)
    (joins : ∀ close k p, label = .accepted close k p →
      (s.processes L).detector = none ∧ p ∉ (s.processes L).service.alivePeers) :
    next.running = true ∧ next.Leading := by
  have still := up running
  rw [processes, Function.update_self] at still
  exact ⟨still, step.leading h.leading (wired.sound L) still notConnected joins⟩

/-- **A step under one leader.** -/
theorem Stable.kept (taken : s.step hosts e = some s') (stable : Stable hosts L s e)
    (wired : Wired s) (unstarted : ∀ i, s.started ≤ i → s.processes i = { me := 0 })
    (g : Gathered L s) (h : Tracked L s) : Gathered L s' ∧ Tracked L s' := by
  obtain ⟨permits, survives⟩ := stable
  have up := survives s' taken
  have nothing : s.views ++ [] = s.views := List.append_nil _
  cases worldStep_of_step taken with
  | start listed down =>
      exact ⟨g.start wired _ hosts, h.start wired unstarted rfl rfl rfl rfl rfl rfl⟩
  | @crash i running =>
      have apart : i ≠ L := by
        rintro rfl
        have still := up running
        change (Function.update s.processes i _ i).running = true at still
        rw [Function.update_self] at still
        cases still
      have step : ThreadStep (s.processes i) .detector (.silent []) (s.processes i).terminate :=
        .dies rfl
      have follows := g.follows wired step apart (fun _ _ main => by cases main)
        (fun _ broken => by cases broken)
      exact ⟨g.thread wired step (fun _ => follows) rfl rfl rfl rfl up,
        h.follower g wired step apart running rfl rfl rfl rfl rfl rfl
          (fun _ _ same => by cases same) (fun _ _ same => by cases same) fun _ _ _ => rfl⟩
  | @heartBeat i p running idle other =>
      refine ⟨g.replace rfl rfl rfl rfl up ?_, ?_⟩
      · intro apart
        exact ⟨(g.others i apart).1, (g.others i apart).2, g.searching i apart, g.source i apart⟩
      · by_cases here : i = L
        · subst here
          have steady : ((s.processes i).heartBeat p).Steady :=
            ⟨h.leading.steady.idle, fun t operation place =>
              tells_congr (h.leading.steady.tells t operation (by cases t <;> exact place))
                rfl rfl rfl rfl⟩
          exact h.detects wired (h.leading.of_quiet steady rfl rfl rfl rfl rfl rfl) rfl rfl rfl rfl
            rfl rfl fun _ => rfl
        · exact h.unseen wired here rfl rfl rfl
  | @tick i order running idle all =>
      by_cases here : i = L
      · subst here
        have leading : ((s.processes i).tick order).Leading := h.leading.tick fun deletes =>
          Process.idle_of_heads h.leading.place running (permits deletes).2
        have owes : ∀ p, ((s.processes i).tick order).owesView p = (s.processes i).owesView p :=
          owesView_tick idle
        refine ⟨g.replace rfl rfl rfl rfl up fun apart => absurd rfl apart, ?_⟩
        obtain ⟨_, _, _, _, same⟩ := (s.processes i).tick_eq order
        rw [same] at leading owes ⊢
        exact h.detects wired leading rfl rfl rfl rfl rfl rfl owes
      · have none : (s.processes i).startsDeletion order = false := by
          rw [Bool.eq_false_iff]
          exact fun deletes => here (permits deletes).1
        obtain ⟨_, _, _, same⟩ := Process.tick_undeleting none
        refine ⟨g.replace rfl rfl rfl rfl up ?_, ?_⟩
        · intro apart
          rw [same]
          exact ⟨(g.others i apart).1, (g.others i apart).2, g.searching i apart, g.source i apart⟩
        · rw [same]
          exact h.unseen wired here rfl rfl rfl
  | @silent i t created next running step =>
      by_cases here : i = L
      · subst here
        obtain ⟨still, leading⟩ := h.survives wired step running up rfl
          (fun _ _ same => by cases same) fun _ _ _ same => by cases same
        exact ⟨g.thread wired step (fun apart => absurd rfl apart) rfl rfl rfl rfl up,
          h.silent wired step leading still⟩
      · have searches : t = .main → (s.processes i).main ≠ .findLeader [] := by
          rintro rfl main
          dsimp only at permits
          rw [main] at permits
          exact here permits
        have follows := g.follows wired step here (fun _ _ => searches)
          (fun _ broken => by cases broken)
        have none : created = [] := follows.made
        subst none
        exact ⟨g.thread wired step (fun _ => follows) rfl rfl rfl rfl up,
          h.follower g wired step here running rfl rfl rfl rfl nothing rfl
            (fun _ _ same => by cases same) (fun _ _ same => by cases same) fun _ _ _ => rfl⟩
  | @sent i t client m next running step =>
      by_cases here : i = L
      · subst here
        obtain ⟨still, leading⟩ := h.survives wired step running up rfl
          (fun _ _ same => by cases same) fun _ _ _ same => by cases same
        exact ⟨g.thread wired step (fun apart => absurd rfl apart) rfl rfl rfl rfl up,
          h.sent wired step leading⟩
      · have follows := g.follows wired step here (fun _ same => by cases same)
          (fun _ broken => by cases broken)
        obtain ⟨p, holds⟩ := step.sent_holds
        obtain ⟨less, own, _⟩ := wired.held i p client holds
        refine ⟨g.thread wired step (fun _ => follows) rfl rfl rfl rfl up,
          h.follower g wired step here running rfl rfl rfl rfl rfl rfl
            (fun _ _ same => by cases same) (fun _ _ same => by cases same) ?_⟩
        intro l foreign _
        change Function.update s.inbox client.peer _ l = _
        rw [Function.update_of_ne]
        rintro rfl
        exact foreign (g.owner_peer less (own ▸ here))
  | @failed i t client m next running ended step =>
      by_cases here : i = L
      · subst here
        have still := up running
        change (Function.update s.processes i next i).running = true at still
        rw [Function.update_self, step.stops h.leading (Or.inl ⟨_, _, rfl⟩)] at still
        cases still
      · have follows := g.follows wired step here (fun _ same => by cases same)
          (fun _ broken => by cases broken; exact ended)
        exact ⟨g.thread wired step (fun _ => follows) rfl rfl rfl rfl up,
          h.follower g wired step here running rfl rfl rfl rfl rfl rfl
            (fun _ _ same => by cases same) (fun _ _ same => by cases same) fun _ _ _ => rfl⟩
  | @received i t client m rest next running head step =>
      have own : s.owner client = i := wired.reads_own taken head (Function.update_self _ _ _)
      by_cases here : i = L
      · subst here
        obtain ⟨still, leading⟩ := h.survives wired step running up rfl
          (fun _ _ same => by cases same) fun _ _ _ same => by cases same
        exact ⟨g.thread wired step (fun apart => absurd rfl apart) rfl rfl rfl rfl up,
          h.received wired step own leading still⟩
      · have follows := g.follows wired step here (fun _ same => by cases same)
          (fun _ broken => by cases broken)
        refine ⟨g.thread wired step (fun _ => follows) rfl rfl rfl rfl up,
          h.follower g wired step here running rfl rfl rfl rfl rfl rfl ?_ ?_ ?_⟩
        · intro l m' same
          cases same
          exact own
        · intro l m' same
          cases same
          change s.inbox client = m :: Function.update s.inbox client rest client
          rw [Function.update_self, head]
        · intro l _ other
          change Function.update s.inbox client rest l = _
          rw [Function.update_of_ne]
          rintro rfl
          exact other m rfl
  | @lost i t client next running empty ended step =>
      by_cases here : i = L
      · subst here
        have still := up running
        change (Function.update s.processes i next i).running = true at still
        rw [Function.update_self, step.stops h.leading (Or.inr ⟨_, rfl⟩)] at still
        cases still
      · have follows := g.follows wired step here (fun _ same => by cases same)
          (fun _ broken => by cases broken; exact ended)
        exact ⟨g.thread wired step (fun _ => follows) rfl rfl rfl rfl up,
          h.follower g wired step here running rfl rfl rfl rfl rfl rfl
            (fun _ _ same => by cases same) (fun _ _ same => by cases same) fun _ _ _ => rfl⟩
  | @connected i t peer j next running known listens step =>
      have leads := g.listener listens.2
      subst leads
      have apart : i ≠ j := by
        rintro rfl
        exact step.connected_ne (wired.sound i) listens.1.symm
      exact ⟨g.connected step apart listens.2, h.connected g wired step apart⟩
  | @refused i t peer next running deaf step =>
      by_cases here : i = L
      · subst here
        obtain ⟨still, leading⟩ := h.survives wired step running up rfl
          (fun _ _ same => by cases same) fun _ _ _ same => by cases same
        refine ⟨g.thread wired step (fun apart => absurd rfl apart) rfl rfl rfl rfl up, ?_⟩
        cases step with
        | dies fatal => cases fatal
        | noLeaderThere place _ =>
            exact h.searching wired (by rw [place]; rfl) leading rfl rfl rfl rfl rfl rfl rfl rfl rfl
              rfl rfl
        | unreachable place =>
            have heads := h.leading.place
            rw [place] at heads
            cases heads
      · have follows := g.follows wired step here (fun _ same => by cases same)
          (fun _ broken => by cases broken)
        exact ⟨g.thread wired step (fun _ => follows) rfl rfl rfl rfl up,
          h.follower g wired step here running rfl rfl rfl rfl rfl rfl
            (fun _ _ same => by cases same) (fun _ _ same => by cases same) fun _ _ _ => rfl⟩
  | @accepted i t close client rest next running head step =>
      have listening : (s.processes i).main.listening = true := by
        cases step with
        | dies fatal => cases fatal
        | accept place =>
            rw [place]
            rfl
        | waitForNewLeaderMsg place =>
            rw [place]
            rfl
      have here := g.listener listening
      subst here
      have joins : (s.processes i).detector = none ∧
          (s.processes (s.owner client.peer)).me ∉ (s.processes i).service.alivePeers := by
        cases step with
        | dies fatal => cases fatal
        | accept place =>
            dsimp only at permits
            rw [place] at permits
            exact ⟨permits.1, permits.2 client (by rw [head]; rfl)⟩
        | waitForNewLeaderMsg place =>
            have heads := h.leading.place
            rw [place] at heads
            cases heads
      obtain ⟨_, leading⟩ : next.running = true ∧ next.Leading := by
        refine h.survives wired step running up rfl (fun _ _ same => by cases same) ?_
        intro _ _ _ same
        cases same
        exact joins
      obtain ⟨closed, tracked⟩ := h.accepted wired head step joins.1 joins.2 leading
      refine ⟨g.thread wired step (fun apart => absurd rfl apart) rfl rfl rfl ?_ up, tracked⟩
      funext k
      change (s.reset k || (close && decide (k ∈ rest))) = s.reset k
      rw [closed]
      exact Bool.or_false _

end

/-! ## Agreement -/

section

variable {hosts : List PeerId} {L : ProcId} {s : World}

/-- What a follower has installed has come over a connection that has been admitted. -/
theorem Tracked.admitted (h : Tracked L s) (g : Gathered L s) {i : ProcId} (apart : i ≠ L)
    (some : (s.processes i).installed ≠ []) :
    ∃ k, s.owner k.peer = i ∧ s.Admitted k ∧ (s.processes i).installed <+: s.heard k.peer := by
  obtain ⟨k, less, own⟩ := g.source i apart some
  have heard : (s.processes i).installed <+: s.heard k := by
    unfold World.heard
    rw [own]
    exact List.prefix_append _ _
  refine ⟨k.peer, by rw [Socket.peer_peer]; exact own, ?_, by rw [Socket.peer_peer]; exact heard⟩
  by_contra outside
  have nothing := h.unadmitted k.peer less (g.owner_peer less (own ▸ apart)) outside
  rw [Socket.peer_peer] at nothing
  rw [nothing] at heard
  exact some (List.prefix_nil.mp heard)

theorem Tracked.agreement (h : Tracked L s) (g : Gathered L s) : Agreement L s := by
  constructor
  · exact h.own
  · intro i apart some
    obtain ⟨k, own, ⟨creation, made, added⟩, heard⟩ := h.admitted g apart some
    obtain ⟨n, at_n⟩ := List.getElem?_of_mem made
    refine ⟨n, creation, k, at_n, added, own, ?_⟩
    rw [h.own, ← List.map_drop]
    exact heard.trans (h.segment n creation k at_n added)
  · intro i apart
    by_cases none : (s.processes i).installed = []
    · rw [none]
      exact .nil
    · obtain ⟨k, _, ⟨creation, made, added⟩, heard⟩ := h.admitted g apart none
      obtain ⟨n, at_n⟩ := List.getElem?_of_mem made
      obtain ⟨rest, whole⟩ := heard.trans (h.segment n creation k at_n added)
      have chain := h.consecutive n creation k at_n added
      rw [← whole] at chain
      exact chain.left_of_append
  · intro i apart v mem
    obtain ⟨k, rfl, now, heard⟩ := h.admitted g apart (List.ne_nil_of_mem mem)
    exact h.contains k now v (heard.subset mem)
  · intro p
    unfold getGroupMembers
    rw [OrderedSet.mem_insert, h.leading.joined p]

theorem Tracked.init : Tracked L {} where
  leading := .fresh rfl rfl rfl rfl rfl rfl
  own := rfl
  known k now := by
    obtain ⟨_, mem, _⟩ := now
    cases mem
  early _ k now := by
    obtain ⟨_, mem, _⟩ := now
    cases mem
  queue := List.nodup_nil
  unused k waits := absurd waits List.not_mem_nil
  waiting k waits := absurd waits List.not_mem_nil
  joining p k joins := absurd joins (not_joins_of_idle rfl p)
  unadmitted k less := absurd less (Nat.not_lt_zero _)
  segment n creation k made := by cases made
  complete p mem := absurd mem (OrderedSet.notMem_empty p)
  consecutive n creation k made := by cases made
  contains k now := by
    obtain ⟨_, mem, _⟩ := now
    cases mem

theorem tracked_of_stable (reach : Reach (World.step hosts) (Stable hosts L) {} s) :
    Gathered L s ∧ Tracked L s := by
  have known : ∀ s, Reach (World.step hosts) (Stable hosts L) {} s →
      Wired s ∧ ∀ i, s.started ≤ i → s.processes i = { me := 0 } := fun s before =>
    ⟨wired_of_reachable before.always, unstarted_of_reachable before.always⟩
  refine reach.invariant_with (P := fun s => Gathered L s ∧ Tracked L s) known ⟨.init, .init⟩ ?_
  rintro s e s' ⟨wired, unstarted⟩ ⟨g, h⟩ stable taken
  exact Stable.kept taken stable wired unstarted g h

/-- **Agreement** on the views of one leader, in every run that it survives. -/
theorem agreement_of_stable (reach : Reach (World.step hosts) (Stable hosts L) {} s) :
    Agreement L s := by
  obtain ⟨gathered, tracked⟩ := tracked_of_stable reach
  exact tracked.agreement gathered

end

/-! ## Hosts 2 and 3 join host 1, and host 2 lags behind when host 3 is deleted -/

def deletionRun : List Event :=
  threeHostsRun ++ [.crash 2, .heartBeat 0 3, .tick 0 [3], .tick 0 [3], .tick 0 [3]] ++
  List.replicate 4 (.run 0 .detector) ++ mainSteps 1 2 ++ List.replicate 7 (.run 0 .detector)

theorem deletionRun_through :
    (replay (World.step [1, 2, 3, 4, 5]) {} deletionRun).isSome = true := by
  decide +kernel

theorem agreement_of_stable_deletion :
    Agreement 0 ((replay (World.step [1, 2, 3, 4, 5]) {} deletionRun).get deletionRun_through) :=
  agreement_of_stable (show Reach (World.step [1, 2, 3, 4, 5]) (Stable [1, 2, 3, 4, 5] 0) {} _ from
    .of_isSome (by decide +kernel) deletionRun_through)

end GroupComm.Lab2
