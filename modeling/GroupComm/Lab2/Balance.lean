import GroupComm.Lab2.InStep

/-!
# No request and no answer is lost

`Joint` bounds what is on the way between a leader and a member by what the leader waits for; one
of them may have gone, and then something is lost.  While both are there it is all of it: every
request without a read answer is in exactly one place (`requests_conserved`).
-/

namespace GroupComm.Lab2

open MembershipService World Transition

/-- The requests whose answers a leader has not read: first those whose answers are on the way to
it, then the one that the member answers, then those on the way to the member. -/
def World.Balanced (s : World) : Prop :=
  ∀ k : Socket, k.connection < s.opened → ∀ answering owed, s.Plays k (.member answering) →
    s.Plays k.peer (.leads owed) →
      okIds (s.inbox k.peer) ++ answering ++ requestIds (s.inbox k) = owed

/-! ## Steps of the two roles -/

section

variable {R R₂ : Role} {m : Msg} {answering owed : List RequestId} {inbox inbox' rest : List Msg}

theorem Sends.balanced_member (sends : Sends R m (.member answering))
    (joint : Joint R (.leads owed) inbox inbox' ∨ Joint (.leads owed) R inbox' inbox)
    (before : ∀ now, R = .member now → okIds inbox' ++ now ++ requestIds inbox = owed) :
    okIds (inbox' ++ [m]) ++ answering ++ requestIds inbox = owed := by
  cases sends with
  | ok m =>
      rw [← before _ rfl, okIds_append, List.append_nil]
      rfl
  | pendingRequest m => rcases joint with joint | joint <;> cases joint

theorem Sends.balanced_leader (sends : Sends R m (.leads owed))
    (before : ∀ now, R = .leads now → okIds inbox ++ answering ++ requestIds inbox' = now) :
    okIds inbox ++ answering ++ requestIds (inbox' ++ [m]) = owed := by
  cases sends with
  | request m =>
      rw [requestIds_append, ← List.append_assoc, before _ rfl]
      rfl
  | newView m _ =>
      rw [requestIds_append, ← List.append_assoc, before _ rfl]
      exact List.append_nil _

theorem Reads.balanced_member (reads : Reads R m (.member answering))
    (before : ∀ now, R = .member now →
      okIds inbox' ++ now ++ requestIds (m :: rest) = owed) :
    okIds inbox' ++ answering ++ requestIds rest = owed := by
  cases reads with
  | request m =>
      rw [← before _ rfl, List.append_nil, List.append_assoc]
      rfl
  | newView m => exact before _ rfl

theorem Reads.balanced_leader (reads : Reads R m (.leads owed))
    (joint : Joint R (.member answering) (m :: rest) inbox' ∨
      Joint (.member answering) R inbox' (m :: rest))
    (before : ∀ now, R = .leads now →
      okIds (m :: rest) ++ answering ++ requestIds inbox' = now) :
    okIds rest ++ answering ++ requestIds inbox' = owed := by
  cases reads with
  | ok m => exact (List.cons.inj (before _ rfl)).2
  | pendingRequest m =>
      rcases joint with joint | joint
      · cases joint
      · cases joint
        rfl

end

/-! ## Steps of the system -/

/-- The roles at the two ends belong to a joint state. -/
theorem InSession.joint {s : World} (h : InSession s) {k : Socket} (less : k.connection < s.opened)
    {R R' : Role} (plays : s.Plays k R) (plays' : s.Plays k.peer R') :
    Joint R R' (s.inbox k) (s.inbox k.peer) ∨ Joint R' R (s.inbox k.peer) (s.inbox k) := by
  obtain ⟨Q, Q', unique, unique', joint⟩ := h.session k less
  rw [unique R plays, unique' R' plays']
  exact joint

namespace World.Balanced

variable {s s' : World} {i : ProcId} {t : Thread} {next : Process} {client : Socket} {m : Msg}

/-- No role is taken up and nothing is put on the way. -/
theorem still (h : s.Balanced) (back : ∀ k R, s'.Plays k R → s.Plays k R)
    (inbox : s'.inbox = s.inbox) (opened : s'.opened = s.opened) : s'.Balanced := by
  intro k less answering owed plays plays'
  rw [inbox]
  exact h k (opened ▸ less) answering owed (back k _ plays) (back k.peer _ plays')

/-- One connection is touched, at one end. -/
theorem touch (h : s.Balanced) (client : Socket)
    (back : ∀ k, k ≠ client → ∀ R, s'.Plays k R → s.Plays k R)
    (inbox : ∀ k, k ≠ client → k ≠ client.peer → s'.inbox k = s.inbox k)
    (member : ∀ answering owed, s'.Plays client (.member answering) →
      s.Plays client.peer (.leads owed) →
        okIds (s'.inbox client.peer) ++ answering ++ requestIds (s'.inbox client) = owed)
    (leader : ∀ answering owed, s.Plays client.peer (.member answering) →
      s'.Plays client (.leads owed) →
        okIds (s'.inbox client) ++ answering ++ requestIds (s'.inbox client.peer) = owed)
    (opened : s'.opened = s.opened) : s'.Balanced := by
  intro k less answering owed plays plays'
  by_cases same : k = client
  · subst same
    exact member answering owed plays (back k.peer k.peer_ne _ plays')
  · by_cases same' : k.peer = client
    · subst same'
      have turned := leader answering owed
      rw [Socket.peer_peer] at turned
      exact turned (back k same _ plays) plays'
    · have apart : k ≠ client.peer := by
        rintro rfl
        exact same' client.peer_peer
      have apart' : k.peer ≠ client.peer := fun equal => same (Socket.peer_injective equal)
      rw [inbox k same apart, inbox k.peer same' apart']
      exact h k (opened ▸ less) answering owed (back k same _ plays) (back k.peer same' _ plays')

theorem sent (h : s.Balanced) (session : InSession s) (wired : Wired s)
    (running : (s.processes i).running = true)
    (step : ThreadStep (s.processes i) t (.sent client m) next) :
    ((s.deliver client.peer m).setProcess i next).Balanced := by
  obtain ⟨R, R₂, sends, plays, becomes, others⟩ :=
    step.plays_sent (wired.sound i) (session.tidy i) (wired.separated i)
  obtain ⟨less, own⟩ := wired.owner_of_plays plays
  have rep : s.Replaces ((s.deliver client.peer m).setProcess i next) i next :=
    ⟨rfl, rfl, rfl, rfl⟩
  have before : s.Plays client R := .process (own ▸ plays)
  have after : ∀ Q, ((s.deliver client.peer m).setProcess i next).Plays client Q → Q = R₂ :=
    fun Q now => becomes Q (now.here rep own (session.not_queued plays))
  have here : (s.deliver client.peer m).inbox client = s.inbox client :=
    Function.update_of_ne client.peer_ne.symm _ _
  have there : (s.deliver client.peer m).inbox client.peer = s.inbox client.peer ++ [m] :=
    Function.update_self _ _ _
  refine h.touch client ?_ ?_ ?_ ?_ rfl
  · intro k apart Q
    exact .back rep (session.closed i running)
      (step.stays (session.tidy i) fun _ _ same => by cases same) fun _ => others k apart
  · intro k _ apart
    exact Function.update_of_ne apart _ _
  · intro answering owed now other
    change okIds ((s.deliver client.peer m).inbox client.peer) ++ _ ++
      requestIds ((s.deliver client.peer m).inbox client) = _
    rw [here, there]
    rw [← after _ now] at sends
    refine sends.balanced_member (session.joint less before other) ?_
    rintro answering' rfl
    exact h client less answering' owed before other
  · intro answering owed other now
    change okIds ((s.deliver client.peer m).inbox client) ++ _ ++
      requestIds ((s.deliver client.peer m).inbox client.peer) = _
    rw [here, there]
    rw [← after _ now] at sends
    refine sends.balanced_leader ?_
    rintro owed' rfl
    have turned := h client.peer less answering owed' other
    rw [Socket.peer_peer] at turned
    exact turned before

theorem received (h : s.Balanced) (session : InSession s) (wired : Wired s)
    (running : (s.processes i).running = true) {rest : List Msg}
    (head : s.inbox client = m :: rest)
    (step : ThreadStep (s.processes i) t (.received client m) next) {R : Role}
    (playing : (s.processes i).Plays client R) :
    ({ s with inbox := Function.update s.inbox client rest }.setProcess i next).Balanced := by
  obtain ⟨less, own⟩ := wired.owner_of_plays playing
  have rep : s.Replaces ({ s with inbox := Function.update s.inbox client rest }.setProcess i next)
      i next := ⟨rfl, rfl, rfl, rfl⟩
  have stays := step.stays (session.tidy i) fun _ _ same => by cases same
  have here : Function.update s.inbox client rest client = rest := Function.update_self _ _ _
  have there : Function.update s.inbox client rest client.peer = s.inbox client.peer :=
    Function.update_of_ne client.peer_ne _ _
  have elsewhere (k : Socket) (apart : k ≠ client) :
      Function.update s.inbox client rest k = s.inbox k :=
    Function.update_of_ne apart _ _
  rcases step.plays_received (wired.sound i) (session.tidy i) (wired.separated i) with
    rfl | ⟨R, R₂, reads, plays, becomes, others⟩
  · have none {k : Socket} {Q : Role} : ¬ (s.processes i).terminate.Plays k Q :=
      Process.not_plays_of_isolated rfl
    have nobody (Q : Role) : ¬ ({ s with
        inbox := Function.update s.inbox client rest }.setProcess i
          (s.processes i).terminate).Plays client Q :=
      fun now => none (now.here rep own (session.not_queued playing))
    refine h.touch client ?_ (fun k apart _ => elsewhere k apart)
      (fun _ _ now _ => absurd now (nobody _)) (fun _ _ _ now => absurd now (nobody _)) rfl
    exact fun k apart Q => .back rep (session.closed i running) stays fun _ _ now =>
      (none now).elim
  · have before : s.Plays client R := .process (own ▸ plays)
    have after : ∀ Q, ({ s with
        inbox := Function.update s.inbox client rest }.setProcess i next).Plays client Q →
          Q = R₂ :=
      fun Q now => becomes Q (now.here rep own (session.not_queued plays))
    refine h.touch client ?_ (fun k apart _ => elsewhere k apart) ?_ ?_ rfl
    · intro k apart Q
      exact .back rep (session.closed i running) stays fun _ => others k apart
    · intro answering owed now other
      change okIds (Function.update s.inbox client rest client.peer) ++ _ ++
        requestIds (Function.update s.inbox client rest client) = _
      rw [here, there]
      rw [← after _ now] at reads
      refine reads.balanced_member ?_
      rintro answering' rfl
      rw [← head]
      exact h client less answering' owed before other
    · intro answering owed other now
      change okIds (Function.update s.inbox client rest client) ++ _ ++
        requestIds (Function.update s.inbox client rest client.peer) = _
      rw [here, there]
      rw [← after _ now] at reads
      have joint := session.joint less before other
      rw [head] at joint
      refine reads.balanced_leader joint ?_
      rintro owed' rfl
      have turned := h client.peer less answering owed' other
      rw [Socket.peer_peer, head] at turned
      exact turned before

theorem connected (h : s.Balanced) (session : InSession s) (wired : Wired s)
    (running : (s.processes i).running = true) {peer : PeerId} {j : ProcId}
    (listens : (s.processes j).me = peer ∧ (s.processes j).main.listening = true)
    (step : ThreadStep (s.processes i) t (.connected peer s.nextSocket) next) :
    ((s.openConnection i j).setProcess i next).Balanced := by
  have apart : j ≠ i := by
    rintro rfl
    exact step.connected_ne (wired.sound j) listens.1.symm
  have alone : s.backlog i = [] := by
    apply session.closed i running
    cases step with
    | dies fatal => exact fatal.elim
    | leaderFound place _ => rw [place]; rfl
    | reconnect place => rw [place]; rfl
  obtain ⟨joins, elsewhere⟩ := step.plays_connected (wired.sound i) fun p found =>
    (Wired.next_ne (wired.held i p _ (Or.inl found)).1).1 rfl
  have before (k : Socket) (old : k.connection < s.opened) (R : Role)
      (now : ((s.openConnection i j).setProcess i next).Plays k R) : s.Plays k R :=
    now.before alone old (elsewhere k (Wired.next_ne old).1)
  obtain ⟨empty, empty'⟩ := inbox_openConnection_next (s := s) i j
  intro k less answering owed plays plays'
  change okIds ((s.openConnection i j).inbox k.peer) ++ _ ++
    requestIds ((s.openConnection i j).inbox k) = _
  rcases Wired.socket_cases less with old | rfl | rfl
  · rw [inbox_openConnection old, inbox_openConnection (k := k.peer) old]
    exact h k old answering owed (before k old _ plays) (before k.peer old _ plays')
  · rw [empty, empty']
    rcases joins _ (plays.connector alone apart) with ⟨same, _⟩ | ⟨same, _⟩
    · rcases plays'.listener wired apart with ⟨same', _⟩ | ⟨same', _⟩
      · cases same
        cases same'
        rfl
      · cases same'
    · cases same
  · rcases plays.listener wired apart with ⟨same, _⟩ | ⟨same, _⟩
    · cases same
    · cases same

theorem accepted (h : s.Balanced) (session : InSession s) {close : Bool} {rest : List Socket}
    {peer : PeerId} (head : s.backlog i = client :: rest)
    (step : ThreadStep (s.processes i) t (.accepted close client peer) next) :
    ((s.acceptConnection i close rest).setProcess i next).Balanced := by
  have waits : client ∈ s.backlog i := by
    rw [head]
    exact List.mem_cons_self
  obtain ⟨takes, elsewhere⟩ := step.plays_accepted (session.tidy i) fun p found =>
    session.unused i p client waits (Or.inl found)
  have moved (l : ProcId) : ((s.acceptConnection i close rest).setProcess i next).processes l =
      if l = i then next else s.processes l := Function.update_apply _ _ _ _
  -- what waits has waited before, and where it waits nobody has begun to serve or to greet
  have queue {k : Socket} {l : ProcId}
      (there : k ∈ ((s.acceptConnection i close rest).setProcess i next).backlog l) :
      k ∈ s.backlog l := by
    change k ∈ Function.update s.backlog i (if close then [] else rest) l at there
    rw [Function.update_apply] at there
    split at there
    · rename_i here
      rw [here, head]
      split at there
      · cases there
      · exact List.mem_cons_of_mem _ there
    · exact there
  have serves : next.main.serves = true → (s.processes i).main.serves = true := by
    intro now
    cases step with
    | dies fatal => exact fatal.elim
    | accept place => rw [place]; rfl
    | waitForNewLeaderMsg place => cases now
  have hears : next.main ≠ .waitForNewLeaderMsg := by
    intro waiting
    cases step with
    | dies fatal => exact fatal.elim
    | accept place => cases waiting
    | waitForNewLeaderMsg place => cases waiting
  refine h.still ?_ rfl rfl
  intro k R plays
  cases plays with
  | process plays =>
      rw [moved] at plays
      split at plays
      · rename_i here
        change s.owner k = i at here
        by_cases same : k = client
        · rw [same] at here plays ⊢
          rcases takes R plays with ⟨rfl, accepts⟩ | ⟨rfl, place⟩
          · exact .queued (here ▸ waits) (by rw [here, accepts]; rfl)
          · exact .heard (here ▸ waits) (by rw [here, place])
        · apply Plays.process
          rw [here]
          exact elsewhere k same R plays
      · exact .process plays
  | queued there now =>
      refine .queued (queue there) ?_
      rw [moved] at now
      split at now
      · rename_i here
        change s.owner k = i at here
        rw [here]
        exact serves now
      · exact now
  | heard there place =>
      refine .heard (queue there) ?_
      rw [moved] at place
      split at place
      · exact absurd place hears
      · exact place

/-- A step of the failure detector or of a thread that neither sends nor receives. -/
theorem quiet (h : s.Balanced) (session : InSession s) (rep : s.Replaces s' i next)
    (running : (s.processes i).running = true) (stays : (s.processes i).Stays next)
    (back : ∀ k R, next.Plays k R → (s.processes i).Plays k R) (inbox : s'.inbox = s.inbox) :
    s'.Balanced :=
  h.still (fun k _ => .back rep (session.closed i running) stays fun _ => back k) inbox
    rep.opened

theorem silent (h : s.Balanced) (session : InSession s) (wired : Wired s) {label : Label}
    (running : (s.processes i).running = true) (step : ThreadStep (s.processes i) t label next)
    (quiet : label.quiet) (rep : s.Replaces s' i next) (inbox : s'.inbox = s.inbox) :
    s'.Balanced := by
  have notAccepted (k : Socket) (p : PeerId) : label ≠ .accepted true k p := by
    rintro rfl
    exact quiet
  exact h.quiet session rep running (step.stays (session.tidy i) notAccepted)
    (fun _ _ plays => step.plays_quiet quiet (wired.sound i) (session.tidy i) plays) inbox

theorem tick (h : s.Balanced) (session : InSession s) {order : List PeerId}
    (running : (s.processes i).running = true) (idle : (s.processes i).detector = none) :
    (s.setProcess i ((s.processes i).tick order)).Balanced := by
  refine h.quiet session ⟨rfl, rfl, rfl, rfl⟩ running ?_ (fun _ _ => Process.plays_tick idle) rfl
  obtain ⟨_, _, _, _, same⟩ := (s.processes i).tick_eq order
  rw [same]
  exact Or.inr (Or.inl rfl)

theorem heartBeat (h : s.Balanced) (session : InSession s)
    (running : (s.processes i).running = true) (p : PeerId) :
    (s.setProcess i ((s.processes i).heartBeat p)).Balanced :=
  h.quiet session ⟨rfl, rfl, rfl, rfl⟩ running (Or.inr (Or.inl rfl))
    (fun _ _ plays => Process.plays_congr plays rfl rfl rfl rfl fun _ => rfl) rfl

theorem start (h : s.Balanced) (wired : Wired s) (p : PeerId) (hosts : List PeerId) :
    World.Balanced { s.setProcess s.started { me := p, main := .findLeader hosts } with
      started := s.started + 1 } := by
  have rep : s.Replaces { s.setProcess s.started { me := p, main := .findLeader hosts } with
      started := s.started + 1 } s.started { me := p, main := .findLeader hosts } :=
    ⟨rfl, rfl, rfl, rfl⟩
  refine h.still (fun k R => .back rep ?_ ?_ ?_) rfl rfl
  · intro _
    rw [List.eq_nil_iff_forall_not_mem]
    intro k waits
    obtain ⟨less, own⟩ := wired.waiting s.started k waits
    exact Nat.ne_of_lt (wired.owners k less) own
  · refine Or.inr (Or.inr fun listening => ?_)
    have unknown : (s.processes s.started).main = .stopped := by
      by_contra up
      exact Nat.lt_irrefl _ (wired.started s.started (decide_eq_true up))
    rw [unknown] at listening
    cases listening
  · exact fun _ R plays => (Process.not_plays_of_isolated rfl plays).elim

theorem step (h : s.Balanced) (session : InSession s) (wired : Wired s) {hosts : List PeerId}
    {e : Event} (taken : s.step hosts e = some s') : s'.Balanced := by
  cases worldStep_of_step taken with
  | @start p => exact h.start wired p hosts
  | @crash i running =>
      have step : ThreadStep (s.processes i) .main (.silent []) (s.processes i).terminate :=
        .dies rfl
      exact h.silent session wired running step trivial ⟨rfl, rfl, rfl, rfl⟩ rfl
  | @heartBeat i p running => exact h.heartBeat session running p
  | tick running idle => exact h.tick session running idle
  | silent running step =>
      exact h.silent session wired running step trivial ⟨rfl, rfl, rfl, rfl⟩ rfl
  | sent running step => exact h.sent session wired running step
  | failed running _ step =>
      exact h.silent session wired running step trivial ⟨rfl, rfl, rfl, rfl⟩ rfl
  | @received i _ _ _ _ _ running head step reads =>
      obtain ⟨received, lost, eff⟩ := reads
      obtain ⟨R, plays, _⟩ := Process.awaits_of_receive (wired.sound i) (session.tidy i) eff
      exact h.received session wired running head step plays
  | lost running _ _ step =>
      exact h.silent session wired running step trivial ⟨rfl, rfl, rfl, rfl⟩ rfl
  | connected running _ listens step => exact h.connected session wired running listens step
  | refused running _ step =>
      exact h.silent session wired running step trivial ⟨rfl, rfl, rfl, rfl⟩ rfl
  | accepted running head step => exact h.accepted session head step

end World.Balanced

theorem balanced_of_inTurn {hosts : List PeerId} {s : World}
    (reach : Reach (World.step hosts) InTurn {} s) : s.Balanced := by
  have known (s : World) (before : Reach (World.step hosts) InTurn {} s) :
      Wired s ∧ InSession s :=
    ⟨wired_of_reachable before.always, inSession_of_inTurn before⟩
  refine reach.invariant_with known (fun k less => absurd less (Nat.not_lt_zero _)) ?_
  rintro s e s' ⟨wired, session⟩ h _ taken
  exact h.step session wired taken

/-! ## Between a leader and a member -/

/-- The request that a member has read and not answered. -/
def Process.answering (pr : Process) : List RequestId :=
  match pr.main with
  | .sendOkMsg => [pr.service.pendingRequest.requestId]
  | _ => []

/-- A process that has a leader answers it. -/
theorem Process.plays_member {pr : Process} {k : Socket}
    (follows : pr.main = .startAsFollower ∨ pr.main = .sendOkMsg)
    (found : pr.service.tcpClientMap pr.service.leaderPeerId = some k) :
    pr.Plays k (.member pr.answering) := by
  unfold answering
  rcases follows with place | place
  · rw [place]
    exact .follows place found
  · rw [place]
    exact .answers place found

theorem World.Balanced.between {s : World} (h : s.Balanced) (wired : Wired s) {i j : ProcId}
    {p : PeerId} {k : Socket}
    (follows : (s.processes i).main = .startAsFollower ∨ (s.processes i).main = .sendOkMsg)
    (found : (s.processes i).service.tcpClientMap (s.processes i).service.leaderPeerId = some k)
    (rules : (s.processes j).main.rules = true)
    (found' : (s.processes j).service.tcpClientMap p = some k.peer) :
    okIds (s.inbox k.peer) ++ (s.processes i).answering ++ requestIds (s.inbox k) =
      (s.processes j).owed p := by
  obtain ⟨less, own, _⟩ := wired.held i _ k (Or.inl found)
  obtain ⟨_, own', _⟩ := wired.held j p k.peer (Or.inl found')
  refine h k less _ _ (.process ?_) (.process ?_)
  · rw [own]
    exact Process.plays_member follows found
  · rw [own']
    exact .leads rules found'

/-- **No request and no answer is lost, and none is doubled.**  In every run in turn, what a leader
waits for from a member is what is on the way to it, then what the member is about to answer, then
what is on the way to the member. -/
theorem requests_conserved {hosts : List PeerId} {s : World}
    (reach : Reach (World.step hosts) InTurn {} s) {i j : ProcId} {p : PeerId} {k : Socket}
    (follows : (s.processes i).main = .startAsFollower ∨ (s.processes i).main = .sendOkMsg)
    (found : (s.processes i).service.tcpClientMap (s.processes i).service.leaderPeerId = some k)
    (rules : (s.processes j).main.rules = true)
    (found' : (s.processes j).service.tcpClientMap p = some k.peer) :
    okIds (s.inbox k.peer) ++ (s.processes i).answering ++ requestIds (s.inbox k) =
      (s.processes j).owed p :=
  (balanced_of_inTurn reach).between (wired_of_reachable reach.always) follows found rules found'

/-! ## Host 1 adds host 4; host 2 is about to answer, and host 3 has not read the request -/

def askedRun : List Event :=
  threeHostsRun ++ [.start 4] ++ mainSteps 3 1 ++ mainSteps 0 5 ++ mainSteps 1 1

theorem askedRun_through :
    (replay (World.step [1, 2, 3, 4, 5]) {} askedRun).isSome = true := by
  decide +kernel

theorem askedRun_inTurn : allowedAlong (World.step [1, 2, 3, 4, 5]) InTurn {} askedRun := by
  decide +kernel

def asked : World :=
  (replay (World.step [1, 2, 3, 4, 5]) {} askedRun).get askedRun_through

theorem requests_conserved_asked :
    okIds (asked.inbox (Socket.peer ⟨0, true⟩)) ++ (asked.processes 1).answering ++
        requestIds (asked.inbox ⟨0, true⟩) = (asked.processes 0).owed 2 ∧
      okIds (asked.inbox (Socket.peer ⟨1, true⟩)) ++ (asked.processes 2).answering ++
        requestIds (asked.inbox ⟨1, true⟩) = (asked.processes 0).owed 3 ∧
      (asked.processes 0).owed 2 ≠ [] ∧ (asked.processes 0).owed 3 ≠ [] := by
  have reach : Reach (World.step [1, 2, 3, 4, 5]) InTurn {} asked :=
    .of_isSome askedRun_inTurn askedRun_through
  refine ⟨?_, ?_, by decide +kernel, by decide +kernel⟩
  · exact requests_conserved (i := 1) (j := 0) (p := 2) (k := ⟨0, true⟩) reach
      (Or.inr (by decide +kernel)) (by decide +kernel) (by decide +kernel) (by decide +kernel)
  · exact requests_conserved (i := 2) (j := 0) (p := 3) (k := ⟨1, true⟩) reach
      (Or.inl (by decide +kernel)) (by decide +kernel) (by decide +kernel) (by decide +kernel)

end GroupComm.Lab2
